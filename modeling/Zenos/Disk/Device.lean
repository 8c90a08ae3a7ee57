-- A block device as the file systems use it: a flat array of bytes with a
-- cursor. Any operation may fail, and a failed one changes no byte.
import Zenos.Lib.Bytes
import Zenos.Lib.Outcome

namespace zenos_kernel.disk

inductive FileError
  | UnsupportedOperation
  | ReadError
  | WriteError
  | SeekError
  | InvalidFileDescriptor
  | NotFound
  | AlreadyExists
  | NotADirectory
  | IsADirectory
  | PermissionDenied
  | ReadOnlyFilesystem
  | Other (message : String)
  deriving DecidableEq

inductive FsMountError
  | InvalidSuperblock
  | ParseError
  | ReadError
  | Corrupted
  | Unsupported
  | Other (message : String)
  deriving DecidableEq

/-- How a call ends that does not return `Ok`. -/
inductive Fault (ε : Type)
  | err (e : ε)
  | panic

namespace block

inductive BlockError
  | ReadError
  | WriteError
  | SeekError
  | DeviceNotFound

/-- Operation number `ops` fails when `faulty ops` is true. -/
structure Device where
  bytes : Nat → UInt8
  cursor : Nat
  ops : Nat
  faulty : Nat → Bool
  block_size : UInt64

namespace Device

/-- The device after one more operation. -/
def tick (d : Device) : Device := { d with ops := d.ops + 1 }

/-- `seek(SeekFrom::Start(pos))`. -/
def seek (pos : Nat) : EStateM BlockError Device Unit := fun d =>
  if d.faulty d.ops then .error .SeekError d.tick else .ok () { d.tick with cursor := pos }

/-- `read`: the buffer is filled from the cursor on. -/
def read (len : Nat) : EStateM BlockError Device (List UInt8) := fun d =>
  if d.faulty d.ops then .error .ReadError d.tick
  else .ok (Bytes.slice d.bytes d.cursor len) { d.tick with cursor := d.cursor + len }

/-- `read_exact`: an empty buffer needs no read, and one read fills any other. -/
def read_exact (len : Nat) : EStateM BlockError Device (List UInt8) :=
  if len = 0 then pure [] else read len

def write (buf : List UInt8) : EStateM BlockError Device Unit := fun d =>
  if d.faulty d.ops then .error .WriteError d.tick
  else .ok () { d.tick with
    bytes := Bytes.splice d.bytes d.cursor buf, cursor := d.cursor + buf.length }

/-- `d'` is `d` but for its cursor and the number of operations. -/
structure Same (d d' : Device) : Prop where
  bytes : d'.bytes = d.bytes
  faulty : d'.faulty = d.faulty

/-- The operation failed: nothing changed but the number of operations. -/
structure Failed (d d' : Device) : Prop extends Same d d' where
  fault : ∃ k, d.faulty k = true

variable (d : Device)

theorem ends_seek (pos : Nat) :
    Outcome.Ends (seek pos d) (fun _ d' => Same d d' ∧ d'.cursor = pos)
      (fun _ d' => Failed d d') := by
  unfold seek
  split
  · rename_i h
    exact ⟨⟨rfl, rfl⟩, _, h⟩
  · exact ⟨⟨rfl, rfl⟩, rfl⟩

theorem ends_read (len : Nat) :
    Outcome.Ends (read len d) (fun buf d' => Same d d' ∧ buf = Bytes.slice d.bytes d.cursor len)
      (fun _ d' => Failed d d') := by
  unfold read
  split
  · rename_i h
    exact ⟨⟨rfl, rfl⟩, _, h⟩
  · exact ⟨⟨rfl, rfl⟩, rfl⟩

theorem ends_read_exact (len : Nat) :
    Outcome.Ends (read_exact len d)
      (fun buf d' => Same d d' ∧ buf = Bytes.slice d.bytes d.cursor len)
      (fun _ d' => Failed d d') := by
  unfold read_exact
  split
  · rename_i h
    subst h
    exact ⟨⟨rfl, rfl⟩, rfl⟩
  · exact ends_read d len

theorem ends_write (buf : List UInt8) :
    Outcome.Ends (write buf d)
      (fun _ d' => d'.bytes = Bytes.splice d.bytes d.cursor buf ∧ d'.faulty = d.faulty)
      (fun _ d' => Failed d d') := by
  unfold write
  split
  · rename_i h
    exact ⟨⟨rfl, rfl⟩, _, h⟩
  · exact ⟨rfl, rfl⟩

end Device

end block

end zenos_kernel.disk
