import MgbaRs.Lib.Blocks
import MgbaRs.Lib.Lts
import MgbaRs.Rust.Str
import MgbaRs.Trapper.Model

/-!
# Who owns what across the C boundary

The crate hands mGBA raw pointers into its own boxes: the RTC source, the
video buffer and the trapper of an `OwnedCore`, and the driver, its user
callbacks and its coordinator of a link. mGBA is not in the repository. Of it
the crate's comments say, and this model assumes:

* `mRTCGenericSourceInit`, `mCoreSetRTC`, `setVideoBuffer`, the component
  table and the `Create` and `Attach` of a driver store the pointer they are
  handed, and follow it from then on, up to and through deinit;
* `GBASIOSetDriver`, `reset` and `deinit` rewire the link. They are a parameter
  (`Mgba`), and `Mgba.Documented` is what is relied on: among it that an
  installed driver has a way into its core, where its state is scheduled;
* any call on a core, a coordinator or a driver may follow every pointer it
  can find. No other call stores a pointer to one of these blocks, but for the
  events a core's timing list holds of the driver in its port: they go when the
  driver goes, so that the port stands for both.

A call of the safe API becomes the list of its allocations, frees, pointer
stores and calls into C, in the order of the source, panics included
(`World.call`). What Rust's types rule out — a method on a handle that was
never created or is gone — is no call at all (`none`).
-/

namespace MgbaRs.Lifetime

/-- The boxes an `OwnedCore` may own, in the order in which its fields are
dropped. -/
inductive Box where
  | videoBuffer
  | trapper
  | rtc
deriving DecidableEq, Repr

/-- Everything allocated on behalf of a handle. A core may go through several
boxes of one kind; they are numbered. A core's number is never used again. -/
inductive Block where
  | core (i : Nat)
  | box (i : Nat) (k : Box) (n : Nat)
  | coordinator (j : Nat)
  | driver (d : Nat)
  /-- `UserGlue`. -/
  | glue (d : Nat)
deriving DecidableEq, Repr

/-- Where pointers are stored. -/
inductive Slot where
  /-- Of a core: its output buffer, its component table and its RTC source. -/
  | box (k : Box)
  /-- Of a core: its link port, and the events of the driver there. -/
  | sioDriver
  /-- Of an RTC source and of a trapper. -/
  | corePtr
  /-- Of a driver. -/
  | user
  | coordinator
  /-- Of a driver: the core it was plugged into. -/
  | core
  /-- Of a coordinator: the players registered with it. -/
  | player (d : Nat)
deriving DecidableEq, Repr

/-- The kind of block each slot points to. -/
inductive Kind : Block → Slot → Block → Prop
  | box (i : Nat) (k : Box) (n : Nat) : Kind (.core i) (.box k) (.box i k n)
  | sioDriver (i d : Nat) : Kind (.core i) .sioDriver (.driver d)
  | corePtr (i : Nat) (k : Box) (n : Nat) : Kind (.box i k n) .corePtr (.core i)
  | user (d : Nat) : Kind (.driver d) .user (.glue d)
  | coordinator (d j : Nat) : Kind (.driver d) .coordinator (.coordinator j)
  | core (d i : Nat) : Kind (.driver d) .core (.core i)
  | player (j d : Nat) : Kind (.coordinator j) (.player d) (.driver d)

abbrev Memory := Heap Block Slot
abbrev Ops := List (Heap.Op Block Slot)

/-- The fields of an `OwnedCore` that own a box. -/
structure Owned where
  videoBuffer : Option Nat
  trapper : Option Nat
  rtc : Option Nat
deriving DecidableEq, Repr

def Owned.box (o : Owned) : Box → Option Nat
  | .videoBuffer => o.videoBuffer
  | .trapper => o.trapper
  | .rtc => o.rtc

/-- Its boxes, in the order in which they are dropped. -/
def Owned.boxes (o : Owned) (i : Nat) : List Block :=
  [.videoBuffer, .trapper, .rtc].filterMap fun k => (o.box k).map (.box i k)

/-- The handles a program holds, the numbers of cores used up, and the number
of the next box. -/
structure Handles where
  cores : Nat → Option Owned
  made : Nat → Bool
  coordinators : Nat → Bool
  drivers : Nat → Bool
  next : Nat

structure World where
  heap : Memory
  handles : Handles

def World.empty : World where
  heap := .empty
  handles := ⟨fun _ => none, fun _ => false, fun _ => false, fun _ => false, 0⟩

/-- How a call of the API ends. -/
inductive Answer where
  | done
  /-- `Error::CallFailed`. -/
  | callFailed (what : String)
  | panicked (f : Fault)
deriving DecidableEq, Repr

/-- The calls. `created` is whether `GBACoreCreate` returns a core, `width`
and `height` are what `baseVideoSize` reports. `core i` is any method of
`Core` but `reset`, and `driver d` any of `save_state`, `load_state` and the
two adapter variants; the link is the cable or the wireless one. -/
inductive Call where
  | newGba (i : Nat) (created : Bool) (configName : List Byte)
  | setRtcFixed (i : Nat)
  | enableVideoBuffer (i : Nat) (width height : Word)
  | setTraps (i : Nat) (addrs : List Word)
  | core (i : Nat)
  | reset (i : Nat)
  | dropCore (i : Nat)
  | newCoordinator (j : Nat)
  | attachedPlayers (j : Nat)
  | dropCoordinator (j : Nat)
  | newDriver (d j : Nat)
  | install (d i : Nat)
  | uninstall (d i : Nat)
  | driver (d : Nat)
  | dropDriver (d : Nat)
deriving DecidableEq, Repr

/-! ## `OwnedCore` -/

/-- `OwnedCore::new_gba`: what it returns, and the handle if it does. -/
def Owned.newGba (i : Nat) (created : Bool) (configName : List Byte) :
    Answer × Ops × Option Owned :=
  if created = false then (.callFailed "GBACoreCreate", [], none)
  else
    -- `GBACoreCreate`, `init`
    let made : Ops := [.alloc (.core i), .enter (.core i)]
    match CString.new configName with
    -- nobody owns `ptr` yet
    | .error _ => (.panicked .unwrapErr, made, none)
    | .ok _ => (.done, made ++ [.enter (.core i)], some ⟨none, none, none⟩)

/-- A new box for core `i`: what is stored in it, mGBA told of it, and the one
it replaces dropped by the assignment to the field. -/
def Owned.renew (i : Nat) (o : Owned) (k : Box) (n : Nat) (back : Ops) : Ops :=
  .alloc (.box i k n) :: back ++
    [.store (.core i) (.box k) (some (.box i k n)), .enter (.core i)] ++
    Heap.frees ((o.box k).map (.box i k)).toList

/-- `OwnedCore::set_rtc_fixed`: `mRTCGenericSourceInit`, `mCoreSetRTC`. -/
def Owned.setRtcFixed (i : Nat) (o : Owned) (n : Nat) : Ops × Owned :=
  (o.renew i .rtc n [.store (.box i .rtc n) .corePtr (some (.core i))],
    { o with rtc := some n })

/-- `OwnedCore::enable_video_buffer`: `baseVideoSize`, `setVideoBuffer`. -/
def Owned.enableVideoBuffer (b : Build) (i : Nat) (o : Owned) (n : Nat) (width height : Word) :
    Answer × Ops × Owned :=
  match b.mul width height with
  | .error f => (.panicked f, [.enter (.core i)], o)
  | .ok _ =>
      (.done, .enter (.core i) :: o.renew i .videoBuffer n [], { o with videoBuffer := some n })

/-- The loop of `Trapper::new`: a call of `GBAPatch16` for each address, up to the
first one that is in the table already. -/
def trapLoop (i : Nat) : List Word → List Word → Answer × Ops
  | _, [] => (.done, [])
  | seen, addr :: rest =>
      if addr ∈ seen then
        (.panicked (.panic ("attempting to install a second trap at 0x" ++ hex8 addr)), [])
      else
        let (answer, ops) := trapLoop i (addr :: seen) rest
        (answer, .enter (.core i) :: ops)

/-- `OwnedCore::set_traps` and `Trapper::new`: the component slot, then
`ARMHotplugAttach`, then the loop, a panic in which drops the box. -/
def Owned.setTraps (i : Nat) (o : Owned) (n : Nat) (addrs : List Word) : Answer × Ops × Owned :=
  match o.trapper with
  | some _ => (.panicked (.panic "traps are already installed on this core"), [], o)
  | none =>
      let attach := o.renew i .trapper n [.store (.box i .trapper n) .corePtr (some (.core i))]
      match trapLoop i [] addrs with
      | (.done, ops) => (.done, attach ++ ops, { o with trapper := some n })
      | (answer, ops) => (answer, attach ++ ops ++ Heap.frees [.box i .trapper n], o)

/-! ## mGBA's side of the link -/

/-- The pointers mGBA stores when the link port of core `i` is given to a
driver or to none, when core `i` is reset and when it is torn down. -/
structure Mgba where
  setDriver : Memory → Nat → Option Nat → Ops
  reset : Memory → Nat → Ops
  deinit : Memory → Nat → Ops

/-- The stores that belong to plugging `p` into core `i`: its port, the way
from the new driver into the core and its registration, and the same undone
for the driver that was there. -/
inductive Rewires (h : Memory) (i : Nat) (p : Option Nat) : Heap.Op Block Slot → Prop
  | port : Rewires h i p (.store (.core i) .sioDriver (p.map .driver))
  | core {d : Nat} : p = some d → Rewires h i p (.store (.driver d) .core (some (.core i)))
  | register {d j : Nat} :
      p = some d → h.ref (.driver d) .coordinator = some (.coordinator j) →
      Rewires h i p (.store (.coordinator j) (.player d) (some (.driver d)))
  | forget {d : Nat} :
      h.ref (.core i) .sioDriver = some (.driver d) →
      Rewires h i p (.store (.driver d) .core none)
  | strike {d j : Nat} :
      h.ref (.core i) .sioDriver = some (.driver d) →
      h.ref (.driver d) .coordinator = some (.coordinator j) →
      Rewires h i p (.store (.coordinator j) (.player d) none)

/-- The driver in the port of core `i` makes way for `p`: unless it is `p`, it
is no longer registered with its coordinator. -/
structure Unplugs (h : Memory) (i : Nat) (p : Option Nat) (ops : Ops) : Prop where
  stores : ∀ op ∈ ops, Rewires h i p op
  struck : ∀ d j, h.ref (.core i) .sioDriver = some (.driver d) → p ≠ some d →
    h.ref (.driver d) .coordinator = some (.coordinator j) →
    (h.exec ops).ref (.coordinator j) (.player d) ≠ some (.driver d)

/-- And `p` takes its place. -/
structure Plugs (h : Memory) (i : Nat) (p : Option Nat) (ops : Ops) : Prop
    extends Unplugs h i p ops where
  port : (h.exec ops).ref (.core i) .sioDriver = p.map .driver
  core : ∀ d, p = some d → (h.exec ops).ref (.driver d) .core = some (.core i)

/-- What is relied on of mGBA. A reset keeps who is plugged in. -/
structure Mgba.Documented (M : Mgba) : Prop where
  setDriver : ∀ h i p, Plugs h i p (M.setDriver h i p)
  reset : ∀ h i p, h.ref (.core i) .sioDriver = p.map .driver →
    (∀ d, p = some d → h.ref (.driver d) .core = some (.core i)) → Plugs h i p (M.reset h i)
  deinit : ∀ h i, Unplugs h i none (M.deinit h i)

/-- `Core::reset`. -/
def Owned.reset (M : Mgba) (h : Memory) (i : Nat) : Ops :=
  [.enter (.core i)] ++ M.reset h i ++ [.enter (.core i)]

/-- `Drop for OwnedCore`: both deinits, then the fields. -/
def Owned.drop (M : Mgba) (h : Memory) (i : Nat) (o : Owned) : Ops :=
  [.enter (.core i), .enter (.core i)] ++ M.deinit h i ++ Heap.frees (.core i :: o.boxes i)

/-! ## The link -/

/-- `Driver::new`. -/
def Driver.new (d j : Nat) : Ops :=
  [.alloc (.glue d), .alloc (.driver d), .store (.driver d) .user (some (.glue d)),
    .store (.driver d) .coordinator (some (.coordinator j)), .enter (.driver d)]

/-- A call of `GBASIOSetDriver`. -/
def gbaSioSetDriver (M : Mgba) (h : Memory) (i : Nat) (p : Option Nat) : Ops :=
  [.enter (.core i)] ++ M.setDriver h i p ++ [.enter (.core i)]

/-- `Driver::install`. -/
def Driver.install (M : Mgba) (h : Memory) (d i : Nat) : Ops := gbaSioSetDriver M h i (some d)

/-- `Driver::uninstall`: only if the port is this driver's. -/
def Driver.uninstall (M : Mgba) (h : Memory) (d i : Nat) : Ops :=
  if h.ref (.core i) .sioDriver = some (.driver d) then gbaSioSetDriver M h i none else []

/-! ## Calls -/

/-- The handle of core `i`, after a call that used up box number `n`. -/
def Handles.setCore (H : Handles) (i : Nat) (o : Option Owned) (n : Nat) : Handles :=
  { H with cores := Function.update H.cores i o, next := n }

/-- The number of a core is used up. -/
def Handles.make (H : Handles) (i : Nat) : Handles :=
  { H with made := Function.update H.made i true }

def Handles.setCoordinator (H : Handles) (j : Nat) (v : Bool) : Handles :=
  { H with coordinators := Function.update H.coordinators j v }

def Handles.setDriver (H : Handles) (d : Nat) (v : Bool) : Handles :=
  { H with drivers := Function.update H.drivers d v }

/-- What a call answers, what it does to the heap, and the handles after it. -/
def World.call (M : Mgba) (b : Build) (w : World) : Call → Option (Answer × Ops × Handles)
  | .newGba i created configName =>
      if w.handles.made i = true then none
      else
        let (answer, ops, o) := Owned.newGba i created configName
        some (answer, ops, (w.handles.setCore i o w.handles.next).make i)
  | .setRtcFixed i => do
      let o ← w.handles.cores i
      let (ops, o) := o.setRtcFixed i w.handles.next
      return (.done, ops, w.handles.setCore i (some o) (w.handles.next + 1))
  | .enableVideoBuffer i width height => do
      let o ← w.handles.cores i
      let (answer, ops, o) := o.enableVideoBuffer b i w.handles.next width height
      return (answer, ops, w.handles.setCore i (some o) (w.handles.next + 1))
  | .setTraps i addrs => do
      let o ← w.handles.cores i
      let (answer, ops, o) := o.setTraps i w.handles.next addrs
      return (answer, ops, w.handles.setCore i (some o) (w.handles.next + 1))
  | .core i => do
      let _ ← w.handles.cores i
      return (.done, [.enter (.core i)], w.handles)
  | .reset i => do
      let _ ← w.handles.cores i
      return (.done, Owned.reset M w.heap i, w.handles)
  | .dropCore i => do
      let o ← w.handles.cores i
      return (.done, o.drop M w.heap i, w.handles.setCore i none w.handles.next)
  | .newCoordinator j =>
      if w.handles.coordinators j = true then none
      else some (.done, [.alloc (.coordinator j), .enter (.coordinator j)],
        w.handles.setCoordinator j true)
  | .attachedPlayers j =>
      if w.handles.coordinators j = true then
        some (.done, [.enter (.coordinator j)], w.handles)
      else none
  | .dropCoordinator j =>
      if w.handles.coordinators j = true then
        some (.done, [.enter (.coordinator j), .free (.coordinator j)],
          w.handles.setCoordinator j false)
      else none
  | .newDriver d j =>
      if w.handles.drivers d = false ∧ w.handles.coordinators j = true then
        some (.done, Driver.new d j, w.handles.setDriver d true)
      else none
  | .install d i =>
      if w.handles.drivers d = true then do
        let _ ← w.handles.cores i
        return (.done, Driver.install M w.heap d i, w.handles)
      else none
  | .uninstall d i =>
      if w.handles.drivers d = true then do
        let _ ← w.handles.cores i
        return (.done, Driver.uninstall M w.heap d i, w.handles)
      else none
  | .driver d =>
      if w.handles.drivers d = true then some (.done, [.enter (.driver d)], w.handles) else none
  | .dropDriver d =>
      if w.handles.drivers d = true then
        some (.done, Heap.frees [.driver d, .glue d], w.handles.setDriver d false)
      else none

/-- The call leaves core `i` with nobody to drop it. -/
def Call.Loses : Call → Nat → Prop
  | .newGba i created configName, i' => i' = i ∧ created = true ∧ 0 ∈ configName
  | _, _ => False

/-- The program makes a call. -/
def World.Step (M : Mgba) (b : Build) (w : World) (c : Call) (w' : World) : Prop :=
  ∃ answer ops H, w.call M b c = some (answer, ops, H) ∧ w' = ⟨w.heap.exec ops, H⟩

/-- The driver is in the link port of an allocated core. -/
def Plugged (h : Memory) (d i : Nat) : Prop :=
  h.live (.core i) = true ∧ h.ref (.core i) .sioDriver = some (.driver d)

/-- How the link is to be used: a driver is in one core at a time, and its state
is saved and loaded only once it has been installed, and not after it was
uninstalled or replaced. -/
def World.Orderly (w : World) : Call → Prop
  | .install d i => ∀ i', Plugged w.heap d i' → i' = i
  | .driver d => ∃ i, w.heap.ref (.driver d) .core = some (.core i) ∧
      (w.heap.live (.core i) = true → w.heap.ref (.core i) .sioDriver = some (.driver d))
  | _ => True

/-- The lifecycle contract, and the one for traps: on a core without traps
the listed addresses are distinct; a driver is not called once the core it is
installed on is gone, and is dropped when no core has it in its link port any
more; a coordinator is dropped when no driver is attached to it any more. -/
def World.Keeps (w : World) : Call → Prop
  | .setTraps i addrs => ∀ o, w.handles.cores i = some o → o.trapper = none → addrs.Nodup
  | .driver d => ∀ i, w.heap.ref (.driver d) .core = some (.core i) → w.heap.live (.core i) = true
  | .dropDriver d => ∀ i, ¬ Plugged w.heap d i
  | .dropCoordinator j =>
      ∀ d, w.heap.live (.driver d) = true →
        w.heap.ref (.driver d) .coordinator ≠ some (.coordinator j)
  | _ => True

/-- No allocated block points to one that is gone. A driver that is in no core
may point to the one it was in. -/
def NoDangling (h : Memory) : Prop :=
  ∀ b s c, h.live b = true → h.ref b s = some c →
    (s = .core → ∃ d i, b = .driver d ∧ Plugged h d i) → h.live c = true

end MgbaRs.Lifetime
