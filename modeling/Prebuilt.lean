import Prebuilt.Main
import Prebuilt.Proofs.Archive.Checking
import Prebuilt.Proofs.Archive.Zipped
import Prebuilt.Proofs.Install.Bookkeeping
import Prebuilt.Proofs.Install.Choosing
import Prebuilt.Proofs.Install.Naming
import Prebuilt.Proofs.Wrapper.Addressing
import Prebuilt.Proofs.Wrapper.Reporting
import Prebuilt.Proofs.Wrapper.Reusing
import Prebuilt.Proofs.Wrapper.Sharing
import Prebuilt.Proofs.Wrapper.Verifying
import Prebuilt.Proofs.Install.Yielding
import Prebuilt.Proofs.Version.Pattern
import Prebuilt.Proofs.Version.Publishing
import Prebuilt.Proofs.Archive.Transferring
import Prebuilt.Proofs.Wrapper.Binaries
import Prebuilt.Proofs.Wrapper.Finding
import Prebuilt.Proofs.Version.Loading
import Prebuilt.Proofs.Install.Configuring
import Prebuilt.Proofs.Archive.Escaping
import Prebuilt.Proofs.Install.Entering
import Prebuilt.Proofs.Install.Marking
import Prebuilt.Proofs.Install.Preferring
import Prebuilt.Proofs.Files.Writable
import Prebuilt.Proofs.Install.Discreet
import Prebuilt.Proofs.Install.Prevailing
import Prebuilt.Proofs.Install.Removing
import Prebuilt.Proofs.Install.Retrying
import Prebuilt.Proofs.Platforms
import Prebuilt.Proofs.Program.Verbosity
