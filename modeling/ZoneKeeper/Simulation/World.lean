import ZoneKeeper.Service.Host
import ZoneKeeper.Simulation.Basic

namespace ZoneKeeper

structure World where
  disk : Disk
  readings : Nat
  input : List String
  output : List String
  complaints : List String

namespace World

def ofDisk (disk : Disk) : World := ⟨disk, 0, [], [], []⟩

def handle : (a : HostAct) → World → a.Answer × World
  | .file a, w =>
      let (answer, disk) := Disk.handle a w.disk
      (answer, { w with disk := disk })
  | .readClock, w => (Simulation.reading w.readings, { w with readings := w.readings + 1 })
  | .wait _, w => ((), w)
  | .readLine, w =>
      match w.input with
      | [] => (.finished, w)
      | line :: rest => (.line line, { w with input := rest })
  | .printLine line, w => ((), { w with output := w.output ++ [line] })
  | .complain line, w => ((), { w with complaints := w.complaints ++ [line] })

def run {α : Type} (p : HostProgram α) (w : World) : α × World := p.run handle w

end World

end ZoneKeeper
