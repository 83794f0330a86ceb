import Lr35902.Bus

/-!
# Recorded bus accesses

A `Recorder` passes every access on to the bus behind it and keeps a record of it, failed accesses
included.  Recording changes nothing else (`Recorder.forget_record`).
-/

namespace Lr35902

/-- The three ways to access a bus. -/
inductive AccessKind where
  | fetch | read | write
deriving DecidableEq

/-- The record of one access. -/
structure BusAccess where
  kind : AccessKind
  addr : UInt16
  /-- The byte that was moved, or nothing if the access failed. -/
  byte : Option UInt8
deriving DecidableEq

namespace BusAccess

/-- The access in text: its kind, its address and its byte, or a mark of failure. -/
def render (r : BusAccess) : String :=
  let kind := match r.kind with
    | .fetch => "F"
    | .read => "R"
    | .write => "W"
  let byte := match r.byte with
    | some v => Hex.byte v
    | none => "!"
  s!"{kind} {Hex.word r.addr} {byte}"

end BusAccess

/-- A bus with a record of the accesses made to it. -/
structure Recorder (σ : Type) where
  /-- The bus behind the recorder. -/
  bus : σ
  /-- The accesses, the last one in front. -/
  newest : List BusAccess := []

namespace Recorder

variable {σ α : Type}

/-- The accesses in the order in which they were made. -/
def accesses (r : Recorder σ) : List BusAccess := r.newest.reverse

/-- Performs an access and records it, with the byte that `byte` takes from its result. -/
def record (kind : AccessKind) (addr : UInt16) (byte : α → UInt8)
    (access : EStateM Fault σ α) : EStateM Fault (Recorder σ) α :=
  fun r => match access r.bus with
    | .ok v bus => .ok v ⟨bus, ⟨kind, addr, some (byte v)⟩ :: r.newest⟩
    | .error e bus => .error e ⟨bus, ⟨kind, addr, none⟩ :: r.newest⟩

/-- A result without the record. -/
def forget : EStateM.Result Fault (Recorder σ) α → EStateM.Result Fault σ α
  | .ok v r => .ok v r.bus
  | .error e r => .error e r.bus

/-- Recording changes neither the result of an access nor what it does to the bus. -/
theorem forget_record (kind : AccessKind) (addr : UInt16) (byte : α → UInt8)
    (access : EStateM Fault σ α) (r : Recorder σ) :
    forget (record kind addr byte access r) = access r.bus := by
  unfold record
  cases access r.bus <;> rfl

/-- An access that succeeds adds one record, which holds its byte. -/
theorem record_of_ok {kind : AccessKind} {addr : UInt16} {byte : α → UInt8}
    {access : EStateM Fault σ α} {r : Recorder σ} {v : α} {bus : σ}
    (h : access r.bus = .ok v bus) :
    record kind addr byte access r =
      .ok v ⟨bus, ⟨kind, addr, some (byte v)⟩ :: r.newest⟩ := by
  simp [record, h]

/-- An access that fails adds one record, which holds no byte. -/
theorem record_of_error {kind : AccessKind} {addr : UInt16} {byte : α → UInt8}
    {access : EStateM Fault σ α} {r : Recorder σ} {e : Fault} {bus : σ}
    (h : access r.bus = .error e bus) :
    record kind addr byte access r = .error e ⟨bus, ⟨kind, addr, none⟩ :: r.newest⟩ := by
  simp [record, h]

instance [Bus σ] : Bus (Recorder σ) where
  read8 a := record .read a id (Bus.read8 a)
  write8 a v := record .write a (fun _ => v) (Bus.write8 a v)
  fetch8 a := record .fetch a id (Bus.fetch8 a)
  extent r := Bus.extent r.bus

end Recorder

end Lr35902
