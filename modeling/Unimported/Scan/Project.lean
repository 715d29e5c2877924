/-
Scanning a project on a disk: the files are discovered there, and their texts are read from it.
-/
import Unimported.Discovery.Find

set_option autoImplicit false

namespace Unimported.Scan

/-- Reads texts from a disk; what is not UTF-8 is replaced. -/
def Reader.ofDisk (d : Disk) : Reader :=
  .fixed fun p => (d.readLossy p).mapError Trouble.message

/-- Scans the project at a root, with so much room for the exclude patterns, and with texts from a
reader. -/
def projectIn (room : Glob.Room) (reader : Reader) (d : Disk) (s : Settings) (root : Path)
    (elapsed : Duration) : Scan (Except DiscoveryError Report) :=
  (Crew.single s.parallel).run reader s.effectiveBatchSize elapsed
    (Discovery.findIn room d s root)

/-- Scans the project at a root. -/
def project (d : Disk) (s : Settings) (root : Path) (elapsed : Duration) :
    Scan (Except DiscoveryError Report) :=
  projectIn .unbounded (.ofDisk d) d s root elapsed

end Unimported.Scan
