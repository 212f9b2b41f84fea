import Prebuilt.Archive.Extract
import Prebuilt.Proofs.Actions.Bounded
/-!
What can be wrong with an archive. Whatever the bytes are, reading them ends with an error of a few kinds: a fault of the format,
a request that the system refuses, or one of the causes that nobody on the way is prepared for.
-/
set_option autoImplicit false

namespace Prebuilt

/-- What unpacking an archive can end with. -/
def Error.IsOfArchive (e : Error) : Prop := e.IsOfWork ∨ e.isArchiveFault = true

variable {α β : Type} {E : Error → Prop} (hE : ∀ e, Error.IsOfArchive e → E e)

include hE

/-! ## Compressed streams -/

namespace Gzip

theorem yields_skipExactly (n : Nat) (bytes : Bytes) : Yields E (skipExactly n bytes) :=
  Yields.ite (fun _ => yields_error (hE _ (.inl (.inr rfl)))) fun _ => yields_ok _

theorem yields_skipHeader (bytes : Bytes) : Yields E (skipHeader bytes) := by
  unfold skipHeader
  split
  · exact yields_ok _
  · exact yields_error (hE _ (.inr rfl))
  · refine Yields.ite (fun _ => (yields_error (hE _ (.inr rfl))).bind nofun) fun _ => ?_
    refine (yields_skipExactly hE _ _).bind fun after _ => ?_
    split
    · refine Yields.ite (fun _ => (yields_error (hE _ (.inr rfl))).bind nofun) fun _ => Yields.ite (fun _ => ?_) fun _ => ?_
      · refine (yields_skipExactly hE _ _).bind fun _ _ => (yields_skipExactly hE _ _).bind fun after _ => ?_
        exact Yields.ite (fun _ => (yields_skipExactly hE _ _).bind fun _ _ => yields_ok _) fun _ => yields_ok _
      · exact Yields.ite (fun _ => (yields_skipExactly hE _ _).bind fun _ _ => yields_ok _) fun _ => yields_ok _
    · exact yields_error (hE _ (.inl (.inr rfl)))

theorem yields_openMember (s : Stream) (rest : Bytes) : Yields E (s.openMember rest) := by
  refine (yields_skipHeader hE rest).bind fun header _ => ?_
  cases header <;> exact yields_ok _

theorem yields_closeMember (s : Stream) (rest : Bytes) : Yields E (s.closeMember rest) := by
  refine (yields_skipExactly hE 8 rest).bind fun after _ => Yields.ite (fun _ => ?_) fun _ => ?_
  · exact (yields_error (hE _ (.inr rfl))).bind nofun
  · exact Yields.ite (fun _ => (yields_error (hE _ (.inr rfl))).bind nofun) fun _ => yields_ok _

theorem yields_endPhase (ending : Inflate.Ending) (rest : Bytes) : Yields E (Stream.endPhase ending rest) := by
  cases ending with
  | corrupt => exact yields_error (hE _ (.inl (.inr rfl)))
  | _ => exact yields_ok _

theorem yields_readUpTo (n fuel : Nat) (s : Stream) : Yields E (s.readUpTo n fuel) := by
  induction fuel generalizing s with
  | zero => exact yields_ok _
  | succ fuel ih =>
    rw [Stream.readUpTo]
    split
    · exact (yields_closeMember hE _ _).bind fun _ _ => ih _
    · exact (yields_openMember hE _ _).bind fun r _ => Yields.ite (fun _ => ih _) fun _ => yields_ok _
    · split
      · exact ih _
      · exact yields_error (hE _ (.inl (.inr rfl)))
      · exact yields_error (hE _ (.inl (.inr rfl)))
    · exact Yields.ite (fun _ => (yields_endPhase hE _ _).bind fun _ _ => yields_ok _) fun _ => yields_ok _

theorem yields_skipTo (target fuel : Nat) (s : Stream) : Yields E (s.skipTo target fuel) := by
  induction fuel generalizing s with
  | zero => exact yields_ok _
  | succ fuel ih =>
    rw [Stream.skipTo]
    refine Yields.ite (fun _ => yields_ok _) fun _ => (yields_readUpTo hE _ _ s).bind fun r _ => ?_
    exact Yields.ite (fun _ => yields_ok _) fun _ => ih _

theorem yields_readWhole (n : Nat) (done : Bytes) (fuel : Nat) (r : Reader) : Yields E (r.readWhole n done fuel) := by
  induction fuel generalizing done r with
  | zero => exact yields_ok _
  | succ fuel ih =>
    rw [Reader.readWhole]
    refine Yields.ite (fun _ => yields_ok _) fun _ => (yields_readUpTo hE _ _ _).bind fun _ _ => ?_
    exact Yields.ite (fun _ => yields_ok _) fun _ => ih _ _

theorem yields_readRest (n : Nat) (done : Bytes) (fuel : Nat) (r : Reader) : Yields E (r.readRest n done fuel) := by
  induction fuel generalizing done r with
  | zero => exact yields_ok _
  | succ fuel ih =>
    rw [Reader.readRest]
    refine Yields.ite (fun _ => yields_ok _) fun _ => (yields_readUpTo hE _ _ _).bind fun _ _ => ?_
    exact Yields.ite (fun _ => yields_ok _) fun _ => ih _ _

theorem yields_read (n : Nat) (r : Reader) : Yields E (r.read n) := by
  refine Yields.ite (fun _ => yields_ok _) fun _ => (yields_readWhole hE _ _ _ _).bind fun _ _ => ?_
  exact Yields.ite (fun _ => yields_ok _) fun _ => yields_readRest hE _ _ _ _

theorem yields_seek (target : Nat) (r : Reader) : Yields E (r.seek target) :=
  Yields.ite (fun _ => yields_ok _) fun _ => (yields_skipTo hE _ _ _).bind fun _ _ => yields_ok _

end Gzip

namespace Source

theorem yields_read (n : Nat) (source : Source) : Yields E (source.read n) := by
  cases source with
  | plain content position => exact yields_ok _
  | gzip reader => exact (Gzip.yields_read hE n reader).map _

theorem yields_seekTo (target : Int) (source : Source) : Yields E (source.seekTo target) := by
  refine Yields.ite (fun _ => yields_error (hE _ (.inl (.inr rfl)))) fun _ => ?_
  cases source with
  | plain content position => exact Yields.ite (fun _ => yields_error (hE _ (.inr rfl))) fun _ => yields_ok _
  | gzip reader => exact (Gzip.yields_seek hE _ reader).map _

end Source

/-! ## Tar archives -/

namespace Tar

/-- Whatever is left of the archive, the step ends with these errors alone, or with a fault of a header. -/
def Scans (E : Error → Prop) (x : Scanner α) : Prop := ∀ s e s', x.run.run s = (.error (.other e), s') → E e

omit hE in
theorem scans_pure (a : α) : Scans E (pure a : Scanner α) := fun _ _ _ h => nomatch h

omit hE in
theorem scans_throw {e : Error} (h : E e) : Scans E (throw (.other e) : Scanner α) := fun _ _ _ he => by
  cases he
  exact h

omit hE in
theorem scans_refuse {e : Error} {f : α → Scanner β} (h : E e) : Scans E (throw (.other e) >>= f) := fun _ _ _ he => by
  cases he
  exact h

omit hE in
theorem scans_header (fault : HeaderFault) : Scans E (throw (.header fault) : Scanner α) := fun _ _ _ h => nomatch h

omit hE in
theorem scans_get : Scans E (get : Scanner Scan) := fun _ _ _ h => nomatch h

omit hE in
theorem scans_modify (f : Scan → Scan) : Scans E (modify f : Scanner Unit) := fun _ _ _ h => nomatch h

omit hE in
theorem Scans.bind {x : Scanner α} {f : α → Scanner β} (hx : Scans E x) (hf : ∀ a, Scans E (f a)) : Scans E (x >>= f) := by
  intro s e s' h
  rw [ExceptT.run_bind, StateT.run_bind] at h
  rcases hrun : x.run.run s with ⟨r, s₁⟩
  rw [hrun] at h
  cases r with
  | ok a => exact hf a s₁ e s' h
  | error fault =>
    cases h
    exact hx s e s₁ hrun

omit hE in
theorem Scans.map {x : Scanner α} (f : α → β) (hx : Scans E x) : Scans E (f <$> x) := by
  rw [map_eq_pure_bind]
  exact hx.bind fun _ => scans_pure _

omit hE in
theorem Scans.ite {c : Prop} [Decidable c] {x y : Scanner α} (hx : c → Scans E x) (hy : ¬ c → Scans E y) :
    Scans E (if c then x else y) := by
  split
  · exact hx ‹_›
  · exact hy ‹_›

omit hE in
theorem Scans.mapM {f : α → Scanner β} (hf : ∀ a, Scans E (f a)) (items : List α) : Scans E (items.mapM f) := by
  induction items with
  | nil => exact scans_pure _
  | cons a rest ih =>
    rw [List.mapM_cons]
    exact (hf a).bind fun _ => ih.bind fun _ => scans_pure _

omit hE in
theorem Scans.foldlM {f : β → α → Scanner β} (hf : ∀ b a, Scans E (f b a)) (items : List α) (b : β) :
    Scans E (items.foldlM f b) := by
  induction items generalizing b with
  | nil => exact scans_pure _
  | cons a rest ih =>
    rw [List.foldlM_cons]
    exact (hf b a).bind ih

theorem scans_read (n : Nat) : Scans E (read n) := by
  refine scans_get.bind fun s => ?_
  have hread := Source.yields_read hE n s.source
  cases hr : s.source.read n with
  | ok r => exact Scans.bind (fun _ _ _ h => nomatch h) fun _ => scans_pure _
  | error e => exact scans_throw (hread e hr)

omit hE in
theorem scans_tell : Scans E tell := scans_get.bind fun _ => Scans.bind (fun _ _ _ h => nomatch h) fun _ => scans_pure _

theorem scans_readBlocks (count : Int) : Scans E (readBlocks count) := by
  unfold readBlocks
  refine Scans.ite (fun _ => scans_refuse (hE _ (.inl (.inr rfl)))) fun _ => ?_
  refine Scans.ite (fun _ => scans_refuse (hE _ (.inl (.inr rfl)))) fun _ => ?_
  exact Scans.ite (fun _ => scans_refuse (hE _ (.inl (.inr rfl)))) fun _ => scans_read hE _

theorem scans_wholeNumber (t : Text) : Scans E (wholeNumber t) := by
  unfold wholeNumber
  split
  · exact scans_pure _
  · exact scans_throw (hE _ (.inl (.inr rfl)))

theorem scans_applyRecord (member : Member) (key value : Text) : Scans E (applyRecord member key value) := by
  unfold applyRecord
  repeat first
    | exact scans_pure _
    | exact (scans_wholeNumber hE value).bind fun _ => scans_pure _
    | refine Scans.ite (fun _ => ?_) fun _ => ?_

theorem scans_applyRecords (member : Member) (records : Table Text) : Scans E (applyRecords member records) :=
  Scans.foldlM (fun _ _ => scans_applyRecord hE _ _ _) records member

theorem scans_plainMember (header : Header) : Scans E (plainMember header) :=
  scans_tell.bind fun _ => (scans_modify _).bind fun _ => scans_get.bind fun _ => (scans_applyRecords hE _ _).bind fun _ =>
    scans_pure _

theorem scans_moreGaps (done : List (Int × Int)) (fuel : Nat) : Scans E (moreGaps done fuel) := by
  induction fuel generalizing done with
  | zero => exact scans_pure _
  | succ fuel ih => exact (scans_read hE _).bind fun _ => Scans.ite (fun _ => scans_pure _) fun _ => ih _

theorem scans_gappedMember (header : Header) : Scans E (gappedMember header) := by
  have hend (parts : List (Int × Int)) (whole : Option Int) : Scans E (do
      let start ← tell
      modify fun s => { s with offset := start + inBlocks header.member.size }
      return { header.member with start, parts := some parts, size := whole.getD header.member.size }) :=
    scans_tell.bind fun _ => (scans_modify _).bind fun _ => scans_pure _
  unfold gappedMember
  refine Scans.ite (fun _ => ?_) fun _ => hend _ _
  exact scans_get.bind fun _ => (scans_moreGaps hE _ _).bind fun _ => hend _ _

theorem scans_lineNumber (line : Bytes) : Scans E (lineNumber line) := by
  unfold lineNumber
  dsimp only
  split
  · exact scans_pure _
  · exact scans_throw (hE _ (.inl (.inr rfl)))

theorem scans_gapLine (count : Option Nat) (done : List Int) (fuel : Nat) (rest : Bytes)
    (hnext : ∀ count rest done, Scans E (gapLines count rest done fuel)) : Scans E (do
      if !rest.contains 10 then throw (.other (.value .noLineEnd))
      let line := rest.takeWhile (· != 10)
      let n ← lineNumber line
      let rest := rest.drop (line.length + 1)
      match count with
      | none => gapLines (some n.toNat) rest done fuel
      | some _ => gapLines count rest (done ++ [n]) fuel) := by
  refine Scans.ite (fun _ => scans_refuse (hE _ (.inl (.inr rfl)))) fun _ => ?_
  refine (scans_lineNumber hE _).bind fun n => ?_
  cases count with
  | none => exact hnext _ _ _
  | some _ => exact hnext _ _ _

theorem scans_gapLines (count : Option Nat) (rest : Bytes) (done : List Int) (fuel : Nat) :
    Scans E (gapLines count rest done fuel) := by
  induction fuel generalizing count rest done with
  | zero => exact scans_pure _
  | succ fuel ih =>
    rw [gapLines]
    refine Scans.ite (fun _ => scans_pure _) fun _ => Scans.ite (fun _ => ?_) fun _ => scans_gapLine hE count done fuel _ ih
    exact ((scans_read hE _).map _).bind fun _ => scans_gapLine hE count done fuel _ ih

theorem scans_gapsOfRecords (member : Member) (raw : List (Bytes × Bytes)) (records : Table Text) :
    Scans E (gapsOfRecords member raw records) := by
  have hgap (value : Bytes) : Scans E (gapNumber value) := by
    unfold gapNumber
    split
    · exact scans_pure _
    · exact scans_header _
  unfold gapsOfRecords
  split
  · exact (Scans.mapM (scans_wholeNumber hE) _).bind fun _ => scans_pure _
  · refine Scans.ite (fun _ => ?_) fun _ => Scans.ite (fun _ => ?_) fun _ => scans_pure _
    · exact (Scans.mapM hgap _).bind fun _ => (Scans.mapM hgap _).bind fun _ => scans_pure _
    · exact (scans_read hE _).bind fun _ => scans_get.bind fun _ => (scans_gapLines hE _ _ _ _).bind fun _ =>
        scans_tell.bind fun _ => scans_pure _

omit hE in
theorem scans_announced {fuel : Nat} (h : Scans E (member fuel)) : Scans E (member.announced fuel) := by
  have hset (s : Scan) : Scans E (set s : Scanner Unit) := fun _ _ _ h => nomatch h
  rw [member.announced]
  refine scans_get.bind fun s => ?_
  rcases hrun : (member fuel).run s with ⟨r, s₁⟩
  cases r with
  | ok m => exact (hset s₁).bind fun _ => scans_pure _
  | error fault =>
    cases fault with
    | header fault => exact (hset s₁).bind fun _ => scans_header _
    | other e => exact (hset s₁).bind fun _ => scans_throw (h s e s₁ hrun)

/-- The induction is on the number of headers that may still announce one another. -/
theorem scans_member (fuel : Nat) : Scans E (member fuel) := by
  induction fuel with
  | zero =>
    rw [member]
    exact scans_header _
  | succ fuel ih =>
    have hannounced := scans_announced ih
    have hrecords (flag : Char) (next : Member) (records : Table Text) : Scans E (do
        if flag = 'g' then return next
        else
          let next ← applyRecords next records
          if (Table.get? "size" records).isSome then
            let offset : Int := if hasData next then next.start + inBlocks next.size else next.start
            modify fun s => { s with offset }
          return next) := by
      refine Scans.ite (fun _ => scans_pure _) fun _ => (scans_applyRecords hE _ _).bind fun _ => ?_
      exact Scans.ite (fun _ => Scans.bind (scans_modify _) fun _ => scans_pure _) fun _ => scans_pure _
    rw [member]
    refine (scans_read hE _).bind fun block => ?_
    split
    · exact scans_header _
    · refine scans_tell.bind fun _ => Scans.ite (fun _ => ?_) fun _ => Scans.ite (fun _ => ?_) fun _ => Scans.ite (fun _ => ?_) fun _ => ?_
      · refine (scans_readBlocks hE _).bind fun _ => hannounced.bind fun _ => ?_
        exact Scans.ite (fun _ => scans_pure _) fun _ => scans_pure _
      · exact scans_gappedMember hE _
      · refine (scans_readBlocks hE _).bind fun data => ?_
        split
        · exact scans_header _
        · refine scans_get.bind fun _ => Scans.ite (fun _ => ?_) fun _ => ?_
          · refine Scans.bind (scans_modify _) fun _ => hannounced.bind fun _ => (scans_gapsOfRecords hE _ _ _).bind fun _ => ?_
            exact hrecords _ _ _
          · exact hannounced.bind fun _ => (scans_gapsOfRecords hE _ _ _).bind fun _ => hrecords _ _ _
      · exact scans_plainMember hE _

theorem yields_next (fuel : Nat) (s : Scan) : Yields E (next fuel s).1 := by
  have htar (fault : TarFault) : E (.tar fault) := hE _ (.inr rfl)
  have hadvance (s : Scan) (position : Nat) : Yields E (if s.offset = (position : Int) then .ok s.source else do
      let source ← s.source.seekTo (s.offset - 1)
      let piece ← source.read 1
      if piece.1.isEmpty then throw (.tar .endOfData) else return piece.2) := by
    refine Yields.ite (fun _ => yields_ok _) fun _ => (Source.yields_seekTo hE _ _).bind fun _ _ => ?_
    exact (Source.yields_read hE _ _).bind fun _ _ => Yields.ite (fun _ => yields_error (htar _)) fun _ => yields_ok _
  rw [next]
  dsimp only
  split
  · exact yields_ok _
  · split
    · rename_i e heq
      exact yields_error (hadvance { s with source := s.source.tell.2 } s.source.tell.1 e heq)
    · have hmember := scans_member hE fuel
      split <;> rename_i heq <;> dsimp only
      · exact yields_ok _
      · exact Yields.ite (fun _ => yields_error (htar _)) fun _ => yields_ok _
      · exact Yields.ite (fun _ => yields_error (htar _)) fun _ => yields_ok _
      · exact Yields.ite (fun _ => yields_error (htar _)) fun _ => yields_ok _
      · exact Yields.ite (fun _ => yields_error (htar _)) fun _ => yields_ok _
      · exact yields_ok _
      · exact yields_error (htar _)
      · exact yields_error (htar _)
      · exact yields_error (hmember _ _ _ heq)

theorem yields_rest (fuel : Nat) (done : List Member) (more : Nat) (s : Scan) : Yields E (rest fuel done more s) := by
  induction more generalizing done s with
  | zero => exact yields_ok _
  | succ more ih =>
    have hnext := yields_next hE fuel s
    rw [rest]
    split <;> rename_i heq <;> rw [heq] at hnext
    · exact yields_error (hnext _ rfl)
    · exact yields_ok _
    · exact ih _ _

theorem yields_members (compressed : Bool) (content : Bytes) : Yields E (members compressed content) := by
  have hnext := yields_next hE (3 * content.length + 10) ⟨.ofBytes compressed content, 0, []⟩
  unfold members
  dsimp only
  split <;> rename_i heq <;> rw [heq] at hnext
  · refine yields_error ?_
    split
    · exact hE _ (.inr rfl)
    · exact hnext _ rfl
  · exact yields_ok _
  · exact (yields_rest hE _ _ _ _).bind fun _ _ => yields_ok _

end Tar

/-! ## Zip archives -/

namespace Zip

theorem yields_decodeName (utf8 : Bool) (bytes : Bytes) : Yields E (decodeName utf8 bytes) := by
  refine Yields.ite (fun _ => ?_) fun _ => yields_ok _
  split
  · exact yields_ok _
  · exact yields_error (hE _ (.inl (.inr rfl)))

theorem yields_trailer (bytes : Bytes) : Yields E (trailer bytes) := by
  have hzip {α : Type} (fault : ZipFault) : Yields E (throw (.zip fault) : Except Error α) := yields_error (hE _ (.inr rfl))
  have hlong (location : Nat) : Yields E (longTrailer? bytes location) := by
    refine Yields.ite (fun _ => yields_ok _) fun _ => Yields.ite (fun _ => yields_ok _) fun _ => ?_
    refine Yields.ite (fun _ => (hzip _).bind nofun) fun _ => Yields.ite (fun _ => (hzip _).bind nofun) fun _ => ?_
    exact Yields.ite (fun _ => yields_ok _) fun _ => yields_ok _
  unfold trailer
  split
  · exact hzip _
  · refine (hlong _).bind fun r _ => ?_
    cases r <;> exact yields_ok _

theorem yields_longNumber (what : Text) (data : Bytes) : Yields E (longNumber what data) :=
  Yields.ite (fun _ => yields_error (hE _ (.inr rfl))) fun _ => yields_ok _

theorem yields_applyExtra (e : Entry) (fuel : Nat) (extra : Bytes) : Yields E (applyExtra e fuel extra) := by
  induction fuel generalizing e extra with
  | zero => exact yields_ok _
  | succ fuel ih =>
    rw [applyExtra]
    refine Yields.ite (fun _ => yields_ok _) fun _ => Yields.ite (fun _ => (yields_error (hE _ (.inr rfl))).bind nofun) fun _ => ?_
    have hnumber := yields_longNumber hE
    -- A field that is not too long for the short form is kept as it is.
    have hoffset (e' : Entry) (data : Bytes) : Yields E (do
        let offset ← if e.offset = longMark then do
            let number ← longNumber "Header offset" data
            pure (number.1 : Int)
          else pure e.offset
        applyExtra { e' with offset } fuel (extra.drop (Bytes.littleAt extra 2 2 + 4))) :=
      Yields.ite (fun _ => (hnumber _ data).bind fun _ _ => ih _ _) fun _ => ih _ _
    refine Yields.ite (fun _ => ih _ _) fun _ => Yields.ite (fun _ => (hnumber _ _).bind fun size _ => ?_) fun _ => ?_
    · refine Yields.ite (fun _ => (hnumber _ _).bind fun compressed _ => ?_) fun _ => ?_
      · exact hoffset { e with size := size.1, compressedSize := compressed.1 } compressed.2
      · exact hoffset { e with size := size.1 } size.2
    · refine Yields.ite (fun _ => (hnumber _ _).bind fun compressed _ => ?_) fun _ => ?_
      · exact hoffset { e with compressedSize := compressed.1 } compressed.2
      · exact hoffset e _

theorem yields_entries (shift : Int) (size : Nat) (done : List Entry) (total fuel : Nat) (rest : Bytes) :
    Yields E (entries shift size done total fuel rest) := by
  induction fuel generalizing done total rest with
  | zero => exact yields_ok _
  | succ fuel ih =>
    rw [entries]
    refine Yields.ite (fun _ => yields_ok _) fun _ => Yields.ite (fun _ => (yields_error (hE _ (.inr rfl))).bind nofun) fun _ => ?_
    refine Yields.ite (fun _ => (yields_error (hE _ (.inr rfl))).bind nofun) fun _ => (yields_decodeName hE _ _).bind fun _ _ => ?_
    refine Yields.ite (fun _ => (yields_error (hE _ (.inl (.inr rfl)))).bind nofun) fun _ => ?_
    exact (yields_applyExtra hE _ _ _).bind fun _ _ => ih _ _ _

theorem yields_directory (bytes : Bytes) : Yields E (directory bytes) := by
  refine (yields_trailer hE bytes).bind fun t _ => Yields.ite (fun _ => (yields_error (hE _ (.inr rfl))).bind nofun) fun _ => ?_
  exact (yields_entries hE _ _ _ _ _ _).bind fun _ _ => yields_ok _

/-- The fault that a member's data ends with, if it does. -/
theorem fault_of_contentAt {bytes : Bytes} {e : Entry} {start : Nat} {fault : Error}
    (h : (contentAt bytes e start).fault = some fault) : E fault := by
  have hchecked {data : Bytes} (h : (Content.checked e data).fault = some fault) : E fault := by
    unfold Content.checked at h
    dsimp only at h
    split at h
    · cases h
    · cases h
      exact hE _ (.inr rfl)
  have hshort {data : Bytes} (h : (Content.failing data (.truncatedStream [])).fault = some fault) : E fault := by
    cases h
    exact hE _ (.inl (.inr rfl))
  unfold contentAt at h
  dsimp only at h
  split at h
  · split at h
    · exact hshort h
    · split at h
      · exact hshort h
      · exact hchecked h
  · split at h
    · exact hchecked h
    · cases h
      exact hE _ (.inl (.inr rfl))
    · split at h
      · exact hshort h
      · exact hchecked h

omit hE in
theorem openEntry_ok {bytes : Bytes} {e : Entry} {content : Content} (h : openEntry bytes e = .ok content) :
    ∃ start, content = contentAt bytes e start := by
  unfold openEntry at h
  simp only [bind, Except.bind, throw, throwThe, MonadExceptOf.throw, pure, Except.pure] at h
  repeat' split at h
  all_goals first | exact ⟨_, (Except.ok.inj h).symm⟩ | cases h

theorem yields_openEntry (bytes : Bytes) (e : Entry) : Yields E (openEntry bytes e) := by
  have hzip {f : PUnit → Except Error Content} (fault : ZipFault) : Yields E (throw (.zip fault) >>= f) :=
    (yields_error (hE _ (.inr rfl))).bind nofun
  have hother {f : PUnit → Except Error Content} {fault : Error} (h : fault.IsOfWork) : Yields E (throw fault >>= f) :=
    (yields_error (hE _ (.inl h))).bind nofun
  refine Yields.ite (fun _ => hother (Error.isOfWork_system _)) fun _ => Yields.ite (fun _ => hzip _) fun _ => ?_
  refine Yields.ite (fun _ => hzip _) fun _ => Yields.ite (fun _ => hother (.inr rfl)) fun _ => ?_
  refine Yields.ite (fun _ => hother (.inr rfl)) fun _ => (yields_decodeName hE _ _).bind fun _ _ => ?_
  refine Yields.ite (fun _ => hzip _) fun _ => Yields.ite (fun _ => hzip _) fun _ => ?_
  exact Yields.ite (fun _ => hother (.inr rfl)) fun _ => Yields.ite (fun _ => hother (.inr rfl)) fun _ => yields_ok _

end Zip

/-! ## Unpacking -/

open Action

theorem bounded_resolve (path : FilePath) : Bounded E (resolve path) := by
  have hwork : ∀ e, Error.IsOfWork e → E e := fun e he => hE e (.inl he)
  refine (bounded_checkPath hwork _).bind fun _ => bounded_files.bind fun fs => ?_
  dsimp only
  split
  · exact Bounded.ite (fun _ => bounded_throw (hE _ (.inl (.inr rfl)))) fun _ => bounded_pure _
  · exact bounded_pure _

theorem bounded_checkMembers (target : Text) (names : List Text) : Bounded E (checkMembers target names) := by
  refine (bounded_resolve hE _).bind fun root => Bounded.forM fun name _ => (bounded_resolve hE _).bind fun path => ?_
  exact Bounded.ite (fun _ => bounded_throw (hE _ (.inl (.inl rfl)))) fun _ => bounded_pure ()

namespace Tar

/-- Whatever is left of the archive, the step is bounded. -/
def Unpacks (E : Error → Prop) (step : Unpacking α) : Prop := ∀ source, Bounded E (step.run source)

omit hE in
theorem unpacks_pure (a : α) : Unpacks E (pure a : Unpacking α) := fun _ => bounded_pure _

omit hE in
theorem unpacks_throw {e : Error} (h : E e) : Unpacks E (throw e : Unpacking α) := fun _ => bounded_throw h

omit hE in
theorem unpacks_get : Unpacks E (get : Unpacking Source) := fun _ => bounded_pure _

omit hE in
theorem unpacks_set (source : Source) : Unpacks E (set source : Unpacking Unit) := fun _ => bounded_pure _

omit hE in
theorem unpacks_act {action : Action α} (h : Bounded E action) : Unpacks E (act action) := fun _ => h.bind fun _ => bounded_pure _

omit hE in
theorem Unpacks.bind {x : Unpacking α} {f : α → Unpacking β} (hx : Unpacks E x) (hf : ∀ a, Unpacks E (f a)) :
    Unpacks E (x >>= f) := fun source => (hx source).bind fun r => hf r.1 r.2

omit hE in
theorem Unpacks.ite {c : Prop} [Decidable c] {x y : Unpacking α} (hx : c → Unpacks E x) (hy : ¬ c → Unpacks E y) :
    Unpacks E (if c then x else y) := by
  split
  · exact hx ‹_›
  · exact hy ‹_›

omit hE in
theorem Unpacks.forM {f : α → Unpacking Unit} {items : List α} (hf : ∀ a ∈ items, Unpacks E (f a)) : Unpacks E (items.forM f) := by
  induction items with
  | nil => exact unpacks_pure ()
  | cons a rest ih => exact (hf a (by simp)).bind fun _ => ih fun b hb => hf b (by simp [hb])

omit hE in
theorem Unpacks.forIn {f : α → PUnit → Unpacking (ForInStep PUnit)} (items : List α) (hf : ∀ a u, Unpacks E (f a u)) (u : PUnit) :
    Unpacks E (forIn items u f) := by
  induction items generalizing u with
  | nil => exact unpacks_pure _
  | cons a rest ih =>
    rw [List.forIn_cons]
    refine (hf a u).bind fun r => ?_
    cases r with
    | done u => exact unpacks_pure _
    | yield u => exact ih u

omit hE in
theorem Unpacks.attempt_bind {E' : Error → Prop} {step : Unpacking α} {f : Except Error α → Unpacking β} (h : Unpacks E' step)
    (hok : ∀ a, Unpacks E (f (.ok a))) (herror : ∀ e, E' e → Unpacks E (f (.error e))) : Unpacks E (Tar.attempt step >>= f) := by
  rw [Tar.attempt, bind_assoc]
  refine unpacks_get.bind fun source source' => ?_
  rw [bind_assoc, StateT.run_bind, act, StateT.run_lift, bind_assoc]
  refine (h source).attempt_bind (fun r => ?_) fun e he => ?_
  · exact hok r.1 r.2
  · exact herror e he source'

omit hE in
theorem unpacks_unlessMissing {step : Unpacking Bool} (h : Unpacks E step) : Unpacks E (unlessMissing step) := by
  refine h.attempt_bind (fun _ => unpacks_pure _) fun e he => ?_
  cases e <;> first | exact unpacks_pure _ | exact unpacks_throw he

omit hE in
theorem unpacks_unlessRefused {step instead : Unpacking Bool} (h : Unpacks E step) (hinstead : Unpacks E instead) :
    Unpacks E (unlessRefused step instead) :=
  h.attempt_bind (fun _ => unpacks_pure _) fun _ he => Unpacks.ite (fun _ => hinstead) fun _ => unpacks_throw he

theorem unpacks_copy (location : Location) (position count : Nat) : Unpacks E (copy location position count) := by
  induction count using Nat.strongRecOn generalizing position with
  | ind count ih =>
    rw [copy]
    refine Unpacks.ite (fun _ => unpacks_pure _) fun hcount => ?_
    refine unpacks_get.bind fun source => (unpacks_act (bounded_ofExcept (Source.yields_read hE _ source))).bind fun r => ?_
    have hsmaller : count - min pieceSize count < count := by
      simp only [pieceSize]
      omega
    have hplace : Bounded E (place location position r.1) := bounded_files.bind fun _ => bounded_setFiles _
    have hrest := (unpacks_act hplace).bind fun _ => ih _ hsmaller (position + min pieceSize count)
    refine (unpacks_set _).bind fun _ => Unpacks.ite (fun _ => (unpacks_throw (hE _ (.inr rfl))).bind fun _ => hrest) fun _ => hrest

theorem unpacks_makeFile (m : Member) (path : Text) : Unpacks E (makeFile m path) := by
  have hwork : ∀ e, Error.IsOfWork e → E e := fun e he => hE e (.inl he)
  have hposition (n : Int) : Yields E (filePosition n) :=
    Yields.ite (fun _ => yields_error (hE _ (.inr rfl))) fun _ =>
      Yields.ite (fun _ => yields_error (hE _ (.inl (.inr rfl)))) fun _ => yields_ok _
  refine unpacks_get.bind fun source => (unpacks_act (bounded_ofExcept (Source.yields_seekTo hE _ source))).bind fun _ => ?_
  refine (unpacks_set _).bind fun _ => (unpacks_act (bounded_create hwork path)).bind fun location => ?_
  cases m.parts with
  | none => exact unpacks_copy hE _ _ _
  | some parts =>
    refine Unpacks.bind (Unpacks.forM fun part _ => ?_) fun _ => ?_
    · exact (unpacks_act (bounded_ofExcept (hposition _))).bind fun _ => unpacks_copy hE _ _ _
    · refine (unpacks_act (bounded_ofExcept (hposition _))).bind fun _ => unpacks_act ?_
      exact bounded_files.bind fun _ => bounded_setFiles _

omit hE in
theorem bounded_refuse {fault : Option Error} (h : ∀ e, fault = some e → E e) : Bounded E (refuse fault) := by
  cases fault with
  | none => exact bounded_pure ()
  | some e => exact bounded_throw (h e rfl)

omit hE in
theorem bounded_succeeds {action : Action Unit} (h : Bounded E action) : Bounded E (succeeds action) := by
  refine h.attempt_bind (fun _ => bounded_pure _) fun e he => ?_
  cases e <;> first | exact bounded_pure _ | exact bounded_throw he

theorem fault_of_tooLarge {n least most : Int} {low high : Text} {e : Error} (h : tooLarge n least most low high = some e) : E e := by
  unfold tooLarge at h
  split at h
  · cases h
    exact hE _ (.inl (.inr rfl))
  · split at h
    · cases h
      exact hE _ (.inl (.inr rfl))
    · cases h

theorem fault_of_ownerFault {m : Member} {e : Error} (h : m.ownerFault? = some e) : E e := by
  have howner {n : Int} {kind : Text} (h : ownerFault? n kind = some e) : E e := by
    unfold ownerFault? at h
    repeat' split at h
    all_goals cases h
    all_goals exact hE _ (.inl (.inr rfl))
  rcases Option.or_eq_some_iff.1 h with h | ⟨-, h⟩
  · exact howner h
  · exact howner h

theorem fault_of_timeFault {m : Member} {e : Error} (h : m.timeFault? = some e) : E e := by
  unfold Member.timeFault? at h
  dsimp only at h
  split at h
  · exact fault_of_tooLarge hE h
  · cases h
    exact hE _ (.inl (.inr rfl))
  · cases h
    exact hE _ (.inl (.inr rfl))
  · split at h
    · cases h
      exact hE _ (.inl (.inr rfl))
    · cases h

theorem bounded_setAttributes (m : Member) (path : Text) : Bounded E (setAttributes m path) := by
  have hwork : ∀ e, Error.IsOfWork e → E e := fun e he => hE e (.inl he)
  refine (bounded_refuse fun _ => fault_of_ownerFault hE).bind fun _ => (bounded_succeeds (bounded_request hwork path _)).bind fun _ => ?_
  refine Bounded.ite (fun _ => bounded_pure _) fun _ => Bounded.ite (fun _ => bounded_pure _) fun _ => ?_
  refine (bounded_refuse fun _ => fault_of_tooLarge hE).bind fun _ => (bounded_succeeds (bounded_request hwork path _)).bind fun _ => ?_
  exact Bounded.ite (fun _ => bounded_pure _) fun _ => (bounded_refuse fun _ => fault_of_timeFault hE).bind fun _ => bounded_pure _

theorem yields_linked (members : List Member) (index : Nat) (m : Member) : Yields E (linked members index m) := by
  unfold linked
  dsimp only
  split
  · exact yields_ok _
  · exact yields_error (hE _ (.inl (.inr rfl)))

/-- The induction is on how many links may still stand for other members. -/
theorem unpacks_unpackTo (members : List Member) (target : Text) (current : Nat) (attributes : Bool) (fuel index : Nat)
    (m : Member) (path : Text) : Unpacks E (unpackTo members target current attributes fuel index m path) := by
  induction fuel generalizing attributes index m path with
  | zero => exact unpacks_throw (hE _ (.inl (.inr rfl)))
  | succ fuel ih =>
    have hwork : ∀ e, Error.IsOfWork e → E e := fun e he => hE e (.inl he)
    rw [unpackTo]
    generalize Path.dropEndSlashes path = path
    have hend (done : Bool) : Unpacks E (if done && attributes then act (setAttributes m path) else return done) :=
      Unpacks.ite (fun _ => unpacks_act (bounded_setAttributes hE m path)) fun _ => unpacks_pure _
    have hinPlace : Unpacks E (act (Action.ofExcept (linked members index m)) >>= fun found =>
        unpackTo members target current true fuel found.1 found.2 path) :=
      (unpacks_act (bounded_ofExcept (yields_linked hE members index m))).bind fun _ => ih _ _ _ _
    have hinstead := unpacks_unlessMissing hinPlace
    have habove {step : Unpacking Bool} (hstep : Unpacks E step) : Unpacks E (do
          let there ← act (Action.hasTarget (Path.parent path))
          if !(Path.parent path).isEmpty && !there then
            act (makeDirectories (Path.parent path) false)
            step
          else step) :=
      (unpacks_act (bounded_hasTarget _)).bind fun _ => Unpacks.ite
        (fun _ => (unpacks_act (bounded_makeDirectories hwork _ _)).bind fun _ => hstep) fun _ => hstep
    cases hk : m.kind with
    | file => exact habove ((unpacks_makeFile hE m path).bind fun _ => (unpacks_pure _).bind hend)
    | directory =>
      exact habove ((unpacks_act (bounded_passExisting (bounded_request hwork path _))).bind fun _ => (unpacks_pure _).bind hend)
    | fifo | character | block =>
      exact habove ((unpacks_act (bounded_makeSpecial hwork path)).bind fun _ => (unpacks_pure _).bind hend)
    | symlink =>
      have hmake := bounded_requestTwo hwork m.linkName path (·.makeLink m.linkName path)
      refine habove (Unpacks.bind (unpacks_unlessRefused ?_ hinstead) hend)
      refine (unpacks_act (bounded_files.bind fun fs => ?_)).bind fun _ => unpacks_pure _
      exact Bounded.ite (fun _ => (bounded_request hwork path _).bind fun _ => hmake) fun _ => hmake
    | hardLink =>
      refine habove (Unpacks.ite (fun _ => hinstead.bind hend) fun _ => (unpacks_unlessRefused ?_ hinstead).bind hend)
      refine (unpacks_act (bounded_hasTarget _)).bind fun _ => Unpacks.ite (fun _ => ?_) fun _ => hinPlace
      exact (unpacks_act (bounded_requestTwo hwork _ _ _)).bind fun _ => unpacks_pure _

theorem unpacks_unpackAll (members : List Member) (target : Text) : Unpacks E (unpackAll members target) := by
  have hwork : ∀ e, Error.IsOfWork e → E e := fun e he => hE e (.inl he)
  refine Unpacks.bind (Unpacks.forIn _ (fun r u => ?_) _) fun _ => Unpacks.bind (Unpacks.forIn _ (fun m u => ?_) _)
    fun _ => unpacks_pure _
  · exact (unpacks_unpackTo hE _ _ _ _ _ _ _ _).bind fun _ => unpacks_pure _
  · refine (unpacks_act ?_).bind fun _ => unpacks_pure _
    refine (bounded_refuse fun _ => fault_of_ownerFault hE).bind fun _ => (bounded_succeeds (bounded_request hwork _ _)).bind fun _ => ?_
    refine Bounded.ite (fun _ => ?_) fun _ => bounded_pure _
    refine (bounded_refuse fun _ => fault_of_timeFault hE).bind fun _ => (bounded_refuse fun _ => fault_of_tooLarge hE).bind fun _ => ?_
    exact (bounded_succeeds (bounded_request hwork _ _)).bind fun _ => bounded_pure _

theorem bounded_extract (compressed : Bool) (archive target : Text) : Bounded E (extract compressed archive target) := by
  have hwork : ∀ e, Error.IsOfWork e → E e := fun e he => hE e (.inl he)
  refine (bounded_ask hwork archive _).bind fun content => (bounded_ofExcept (yields_members hE compressed content)).bind fun r => ?_
  exact (bounded_checkMembers hE _ _).bind fun _ => (unpacks_unpackAll hE _ _ _).bind fun _ => bounded_pure _

end Tar

namespace Zip

theorem bounded_writeMember (content : Bytes) (path : Text) (e : Entry) : Bounded E (do
    let member ← Action.ofExcept (openEntry content e)
    Action.writeFile path member.data
    match member.fault with
    | some fault => throw fault
    | none => return ()) := by
  have hopen := yields_openEntry hE content e
  cases hr : openEntry content e with
  | error fault => exact bounded_throw (hopen fault hr)
  | ok member =>
    refine (bounded_writeFile (fun e he => hE e (.inl he)) path member.data).bind fun _ => ?_
    cases hfault : member.fault with
    | some fault =>
      obtain ⟨start, rfl⟩ := openEntry_ok hr
      exact bounded_throw (fault_of_contentAt hE hfault)
    | none => exact bounded_pure ()

theorem bounded_unpack (content : Bytes) (target : Text) (e : Entry) : Bounded E (unpack content target e) := by
  have hwork : ∀ e, Error.IsOfWork e → E e := fun e he => hE e (.inl he)
  have hkind (path : Text) := Bounded.ite (c := e.isDirectory = true)
    (fun _ => (bounded_isDirectory path).bind fun there => Bounded.ite (c := (!there) = true)
      (fun _ => bounded_request hwork path (·.makeDirectory path FileSystem.directoryMode)) fun _ => bounded_pure ())
    fun _ => bounded_writeMember hE content path e
  have hrest (path : Text) := Bounded.ite (c := e.name.isEmpty = true)
    (fun _ => (bounded_throw (hE Error.emptyName (.inl (.inr rfl)))).bind fun (_ : Unit) => hkind path) fun _ => hkind path
  refine (bounded_hasTarget _).bind fun _ => Bounded.ite (fun _ => ?_) fun _ => hrest _
  exact (bounded_makeDirectories hwork _ _).bind fun _ => hrest _

theorem bounded_extract (archive target : Text) : Bounded E (extract archive target) := by
  have hwork : ∀ e, Error.IsOfWork e → E e := fun e he => hE e (.inl he)
  refine (bounded_ask hwork archive _).bind fun content => (bounded_ofExcept (yields_directory hE content)).bind fun r => ?_
  refine (bounded_checkMembers hE _ _).bind fun _ => Bounded.forM fun name _ => ?_
  split
  · exact bounded_unpack hE _ _ _
  · exact bounded_pure ()

end Zip

omit hE in
/-- What is wrong with an archive is reported; other causes are passed on. -/
theorem bounded_extractArchive (hwork : ∀ e, Error.IsOfWork e → E e) (archive target type : Text) :
    Bounded E (extractArchive archive target type) := by
  have hunpack : Bounded Error.IsOfArchive (unpackArchive archive target type) := by
    refine Bounded.ite (fun _ => Tar.bounded_extract (fun _ he => he) _ _ _) fun _ => ?_
    refine Bounded.ite (fun _ => Tar.bounded_extract (fun _ he => he) _ _ _) fun _ => ?_
    refine Bounded.ite (fun _ => Zip.bounded_extract (fun _ he => he) _ _) fun _ => ?_
    exact bounded_throw (.inl (.inl rfl))
  refine (bounded_makeDirectories hwork _ _).bind fun _ => hunpack.catching fun e he => ?_
  cases hfault : e.isArchiveFault with
  | true => exact .inl ⟨_, if_pos rfl, bounded_throw (hwork _ (.inl rfl))⟩
  | false =>
    refine .inr ⟨if_neg (by simp), hwork e ?_⟩
    rcases he with he | he
    · exact he
    · simp [hfault] at he

end Prebuilt
