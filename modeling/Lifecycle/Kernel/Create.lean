import Lifecycle.Image.Elf
import Lifecycle.Kernel.Basic
/-!
# Creating processes and changing what they do

A process comes to life in two steps: a slot and an identity are taken under a living parent, then
an address space is bound and the process becomes ready. Creation, spawning and forking do both at
once. Address spaces are built before the table is touched, so a rejected one takes neither slot nor
identity.
-/

namespace Lifecycle

namespace Build

/-- What has been mapped, told in order. -/
def events {α : Type} (b : Build α) : List Event := b.space.areas.map .mapped

end Build

namespace Kernel

/-- Takes the first free slot and an identity for a child of a living parent. -/
def reserve (k : Kernel) (parent : Pid) : Outcome (Nat × Pid) :=
  match k.table.aliveSlot parent with
  | .error why => k.refuse why
  | .ok _ =>
    match k.table.freeSlot? with
    | none => k.refuse .tableFull
    | some i =>
      let (p, pool) := k.table.pool.issue
      let table := { k.table.setSlot i (.taken p parent) with pool := pool }
      ⟨.ok (i, p), { k with table := table }, [.allocated p i parent]⟩

/-- Makes the process in a slot ready and binds its address space. -/
def bind (k : Kernel) (i : Nat) (p : Pid) (space : AddressSpace) : Outcome Unit :=
  match k.table.advance i p .runnable with
  | .error why => k.refuse why
  | .ok table =>
    let bound := table.modifySlot i fun s => { s with space := some space }
    ⟨.ok (), { k with table := bound }, [.moved p (k.table.slotAt i).status .runnable]⟩

/-- Reserves a slot and binds an address space to it. -/
def install (k : Kernel) (parent : Pid) (space : AddressSpace) : Outcome Pid :=
  (k.reserve parent).andThen fun (i, p) k => (k.bind i p space).map fun _ => p

/-- Takes a slot for a process without an address space. -/
def allocate (k : Kernel) (parent : Pid) : Outcome Pid := (k.reserve parent).map (·.2)

/-- Binds an address space to a process and makes it ready. -/
def activate (k : Kernel) (p : Pid) (space : AddressSpace) : Outcome Unit :=
  match k.table.slotOf? p with
  | none => k.refuse (.noProcess p)
  | some i => k.bind i p space

/-- Installs an address space that has been built, and tells of the new process. -/
def adoptBuild {α : Type} (k : Kernel) (parent : Pid) (built : Build α) : Outcome Pid :=
  match built.result with
  | .error fault => ⟨.error fault, k, built.events⟩
  | .ok _ =>
    let pages := built.space.pageCount
    let made := (k.install parent built.space).andThen fun p k =>
      ⟨.ok p, k, [.created p parent pages]⟩
    { made with events := built.events ++ made.events }

/-- Creates a child whose address space holds some regions. A rejected list of regions is told of.
-/
def create (k : Kernel) (parent : Pid) (regions : List Region) : Outcome Pid :=
  let built := AddressSpace.ofRegions regions
  match built.result with
  | .error (.refused why) => ⟨.error (.refused why), k, built.events ++ [.rejected parent why]⟩
  | _ => k.adoptBuild parent built

/-- Creates a child from a program image. -/
def spawn (k : Kernel) (parent : Pid) (image : Bytes) : Outcome Pid :=
  k.adoptBuild parent (Elf.load image)

/-- Binds an address space that holds some regions. -/
def activateRegions (k : Kernel) (p : Pid) (regions : List Region) : Outcome Unit :=
  let built := AddressSpace.ofRegions regions
  match built.result with
  | .error fault => ⟨.error fault, k, built.events⟩
  | .ok _ =>
    let bound := k.activate p built.space
    { bound with events := built.events ++ bound.events }

/-- Creates a child of a running process with a copy of its address space. -/
def fork (k : Kernel) (parent : Pid) : Outcome Pid :=
  match k.table.runningSlot parent with
  | .error why => k.refuse why
  | .ok i =>
    match (k.table.slotAt i).space with
    | none => k.refuse (k.table.badStatus i parent)
    | some space =>
      (k.install parent space.copy).andThen fun p k => ⟨.ok p, k, [.forked parent p]⟩

/-- Replaces the address space of a running process by that of a program image. -/
def exec (k : Kernel) (p : Pid) (image : Bytes) : Outcome Elf.Start :=
  let built := Elf.load image
  match built.result with
  | .error fault => ⟨.error fault, k, built.events⟩
  | .ok start =>
    match k.table.runningSlot p with
    | .error why => ⟨.error (.refused why), k, built.events⟩
    | .ok i =>
      let table := k.table.modifySlot i fun s => { s with space := some built.space }
      ⟨.ok start, { k with table := table },
        built.events ++ [.replaced p start.entry start.stackTop]⟩

/-- Changes the status of a process as a scheduler does; it can neither free nor end a process. -/
def transition (k : Kernel) (p : Pid) (next : Status) : Outcome Unit :=
  match k.table.slotOf? p with
  | none => k.refuse (.noProcess p)
  | some i =>
    match next with
    | .zombie | .unused | .used => k.refuse (k.table.badStatus i p)
    | .runnable | .running | .sleeping =>
      match k.table.advance i p next with
      | .error why => k.refuse why
      | .ok table => ⟨.ok (), { k with table := table }, [.moved p (k.table.slotAt i).status next]⟩

end Kernel

end Lifecycle
