/-
  NettyStudy.Http.Convert — convertByteBufToString of the HttpServerHandlers (server and
  server2 have it word for word), with the array indices it uses and what it leaves of
  the buffer. The string of the readable bytes is built from the backing array where
  there is one, else from a copy of the bytes; the copying branch asks for
  `readableBytes()` again after the copy.

  Both branches are run on any buffer over an array. No sum of indices overflows an int:
  none is above the array's length.

  Proved:
  - `runs_arrayBranch` / `runs_copyBranch`: each branch returns the string of the readable
    bytes, uses no index outside an array and leaves the buffer as it was.
  - `runs_iff`: the method returns what the model in Http.Server does.
-/

import NettyStudy.Http.Server
import NettyStudy.Netty.ArrayAccess

namespace NettyStudy.Http.Convert

open NettyStudy.Text NettyStudy.Netty

/-- `buf.getBytes(index, dst)`, and what `dst` is after it. The capacity bounds what is
    copied, and no index moves. -/
def getBytes (index : Nat) (dst : List UInt8) : Accessing ArrayBuf (List UInt8) := do
  let buf ← receiver
  if buf.capacity < index + dst.length then throw .indexOutOfBounds
  else arraycopy buf.array (buf.arrayOffset + index) dst 0 dst.length

variable (charset : List UInt8 → JString)

/-- `new String(bytes, offset, length)`. -/
def newString (bytes : List UInt8) (offset length : Nat) : Accessing ArrayBuf JString :=
  if bytes.length < offset + length then throw .indexOutOfBounds
  else do
    let part ← loads bytes offset length
    pure (charset part)

def arrayBranch : Accessing ArrayBuf JString := do
  let buf ← receiver
  newString charset buf.array (buf.arrayOffset + buf.readerIndex) buf.readableBytes

def copyBranch : Accessing ArrayBuf JString := do
  let buf ← receiver
  let bytes := List.replicate buf.readableBytes 0
  let bytes ← getBytes buf.readerIndex bytes
  let buf ← receiver
  newString charset bytes 0 buf.readableBytes

def convertByteBufToString : Accessing ArrayBuf JString := do
  let buf ← receiver
  if buf.hasArray then arrayBranch charset else copyBranch charset

/-! ## The two branches -/

theorem runs_newString {bytes : List UInt8} {offset length : Nat} (h : offset + length ≤ bytes.length)
    (buf : ArrayBuf) :
    Runs (newString charset bytes offset length) buf (charset ((bytes.drop offset).take length)) buf := by
  rw [newString, if_neg (by omega)]
  exact (runs_loads bytes length offset h).bind (runs_pure _)

theorem runs_getBytes {buf : ArrayBuf} {index : Nat} {dst : List UInt8} (h : index + dst.length ≤ buf.capacity) :
    Runs (getBytes index dst) buf ((buf.array.drop (buf.arrayOffset + index)).take dst.length) buf := by
  have ha := buf.le_array
  refine runs_receiver.bind ?_
  rw [if_neg (by omega)]
  exact runs_arraycopy (by omega)

theorem runs_arrayBranch (buf : ArrayBuf) :
    Runs (arrayBranch charset) buf (charset buf.toByteBuf.readable) buf := by
  have hr := buf.reader_add_readable
  have hl := buf.writer_le_array
  rw [buf.readable_toByteBuf]
  exact runs_receiver.bind (runs_newString charset (by omega) buf)

theorem runs_copyBranch (buf : ArrayBuf) :
    Runs (copyBranch charset) buf (charset buf.toByteBuf.readable) buf := by
  have hr := buf.reader_add_readable
  have hc := buf.le_capacity
  -- the copy holds the readable bytes and nothing else
  have hroom : buf.readerIndex + (List.replicate buf.readableBytes (0 : UInt8)).length ≤ buf.capacity := by
    rw [List.length_replicate]
    omega
  have hcopy := runs_getBytes hroom
  rw [List.length_replicate, ← buf.readable_toByteBuf] at hcopy
  -- and is read whole: `readableBytes()` is what it was before
  have hwhole : 0 + buf.readableBytes ≤ buf.toByteBuf.readable.length := by
    rw [buf.length_readable]
    omega
  have hread := runs_newString charset hwhole buf
  rw [List.drop_zero, List.take_of_length_le (Nat.le_of_eq buf.length_readable)] at hread
  exact runs_receiver.bind (hcopy.bind (runs_receiver.bind hread))

/-- On every buffer the two branches build the same string, that of the readable bytes,
    with no index outside an array, and leave the buffer as it was. -/
theorem branches_agree (buf : ArrayBuf) : ∃ str, str = charset buf.toByteBuf.readable ∧
    Runs (arrayBranch charset) buf str buf ∧ Runs (copyBranch charset) buf str buf :=
  ⟨_, rfl, runs_arrayBranch charset buf, runs_copyBranch charset buf⟩

/-- A slice of an array, partly read: its one readable byte is at 2 in the array. -/
example :
    let buf : ArrayBuf := ⟨[10, 11, 12, 13], true, 1, 3, 1, 2, by decide, by decide, by decide⟩
    arrayBranch (·.map UInt8.toUInt16) ⟨buf, []⟩ = .ok [12] ⟨buf, [⟨4, 2⟩]⟩ ∧
      copyBranch (·.map UInt8.toUInt16) ⟨buf, []⟩ = .ok [12] ⟨buf, [⟨4, 2⟩, ⟨1, 0⟩, ⟨1, 0⟩]⟩ :=
  ⟨rfl, rfl⟩

/-! ## The method -/

theorem runs_convertByteBufToString (buf : ArrayBuf) :
    Runs (convertByteBufToString charset) buf (charset buf.toByteBuf.readable) buf := by
  refine runs_receiver.bind ?_
  split
  · exact runs_arrayBranch charset buf
  · exact runs_copyBranch charset buf

/-- The model in Http.Server answers what the method returns. -/
theorem runs_iff (buf : ArrayBuf) (str : JString) : Runs (convertByteBufToString charset) buf str buf ↔
    Http.convertByteBufToString charset buf = .ok str := by
  rw [convertByteBufToString_eq, Except.ok.injEq]
  constructor
  · intro h
    exact ((runs_convertByteBufToString charset buf).unique h).1
  · intro h
    rw [← h]
    exact runs_convertByteBufToString charset buf

end NettyStudy.Http.Convert
