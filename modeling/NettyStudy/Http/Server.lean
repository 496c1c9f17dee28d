/-
  NettyStudy.Http.Server — HttpServerHandler of netty-api-practice behind
  HttpRequestDecoder, with no aggregator between them: the decoder delivers a request as
  one HttpRequest, any number of HttpContents and one LastHttpContent, and the handler is
  called for each of these objects.

  The handler writes its response for every object it does not throw on. It takes every
  HttpContent for a LastHttpContent; the cast throws on the others, and exceptionCaught
  closes the channel. Nothing written to a closed channel leaves it.

  `charset` is `new String(bytes)` with the platform's default charset.

  Proved:
  - `convertByteBufToString_eq`: every buffer's readable bytes are converted.
  - `deliver_request` / `deliver_content` / `deliver_last`: what each object does.
  - `written_whole`: requests with no chunks before their last content are answered twice.
  - `thrown_run`: every other chunk throws, and nothing else does.
  - `correlated_iff`: there is one response per request only where there are no requests.
-/

import NettyStudy.Netty.ByteBuf
import NettyStudy.Text.Unicode

namespace NettyStudy.Http

open NettyStudy.Text NettyStudy.Netty

/-! ## The content of a request -/

/-- A ByteBuf over a part of an array: byte `i` is `array[arrayOffset + i]`. A direct or
    composite buffer does not give its array away. -/
structure ArrayBuf where
  array : List UInt8
  hasArray : Bool
  arrayOffset : Nat
  capacity : Nat
  readerIndex : Nat
  writerIndex : Nat
  le_writer : readerIndex ≤ writerIndex
  le_capacity : writerIndex ≤ capacity
  le_array : arrayOffset + capacity ≤ array.length

def ArrayBuf.readableBytes (buf : ArrayBuf) : Nat := buf.writerIndex - buf.readerIndex

/-- The `length` bytes of an array from `offset` on, all of which it must have. -/
def slice (array : List UInt8) (offset length : Nat) : Except Throwable (List UInt8) :=
  if offset + length ≤ array.length then .ok ((array.drop offset).take length) else .error .indexOutOfBounds

/-- `buf.getBytes(index, new byte[length])`, which checks against the capacity and
    moves no index. -/
def ArrayBuf.getBytes (buf : ArrayBuf) (index length : Nat) : Except Throwable (List UInt8) :=
  if index + length ≤ buf.capacity then slice buf.array (buf.arrayOffset + index) length else .error .indexOutOfBounds

section
variable (charset : List UInt8 → JString)

/-- `new String(bytes, offset, length)`. -/
def stringAt (bytes : List UInt8) (offset length : Nat) : Except Throwable JString := do
  let part ← slice bytes offset length
  .ok (charset part)

def convertByteBufToString (buf : ArrayBuf) : Except Throwable JString :=
  if buf.hasArray then stringAt charset buf.array (buf.arrayOffset + buf.readerIndex) buf.readableBytes
  else do
    let bytes ← buf.getBytes buf.readerIndex buf.readableBytes
    stringAt charset bytes 0 buf.readableBytes

theorem slice_ok {array : List UInt8} {offset length : Nat} (h : offset + length ≤ array.length) :
    slice array offset length = .ok ((array.drop offset).take length) := if_pos h

namespace ArrayBuf

theorem writer_le_array (buf : ArrayBuf) : buf.arrayOffset + buf.writerIndex ≤ buf.array.length := by
  have hc := buf.le_capacity
  have ha := buf.le_array
  omega

theorem reader_add_readable (buf : ArrayBuf) : buf.readerIndex + buf.readableBytes = buf.writerIndex := by
  have hw := buf.le_writer
  unfold readableBytes
  omega

theorem length_written (buf : ArrayBuf) :
    ((buf.array.drop buf.arrayOffset).take buf.writerIndex).length = buf.writerIndex := by
  have hl := buf.writer_le_array
  rw [List.length_take, List.length_drop]
  omega

/-- The buffer that an array, its offset and two indices stand for. -/
def toByteBuf (buf : ArrayBuf) : ByteBuf where
  bytes := (buf.array.drop buf.arrayOffset).take buf.writerIndex
  readerIndex := buf.readerIndex
  le_writer := by
    rw [length_written]
    exact buf.le_writer

/-- Byte `i` is stored at `array[arrayOffset + i]`. -/
theorem bytes_toByteBuf {buf : ArrayBuf} {i : Nat} (h : i < buf.writerIndex) :
    buf.toByteBuf.bytes[i]? = buf.array[buf.arrayOffset + i]? := by
  rw [toByteBuf, List.getElem?_take_of_lt h, List.getElem?_drop]

theorem readable_toByteBuf (buf : ArrayBuf) : buf.toByteBuf.readable =
    (buf.array.drop (buf.arrayOffset + buf.readerIndex)).take buf.readableBytes := by
  rw [ByteBuf.readable, toByteBuf, List.drop_take, List.drop_drop]
  rfl

@[simp] theorem length_readable (buf : ArrayBuf) : buf.toByteBuf.readable.length = buf.readableBytes := by
  rw [ByteBuf.readable, List.length_drop, toByteBuf, length_written]
  rfl

end ArrayBuf

/-- Every buffer's readable bytes are converted, by either branch. -/
theorem convertByteBufToString_eq (buf : ArrayBuf) :
    convertByteBufToString charset buf = .ok (charset buf.toByteBuf.readable) := by
  have hl := buf.writer_le_array
  have hc := buf.le_capacity
  have hr := buf.reader_add_readable
  unfold convertByteBufToString stringAt
  split
  · rw [slice_ok (by omega), ← buf.readable_toByteBuf]
    rfl
  · rw [ArrayBuf.getBytes, if_pos (by omega), slice_ok (by omega), ← buf.readable_toByteBuf]
    show (slice _ 0 buf.readableBytes >>= fun part => .ok (charset part)) = _
    rw [slice_ok (by rw [buf.length_readable]; omega), List.drop_zero,
      List.take_of_length_le (Nat.le_of_eq buf.length_readable)]
    rfl

theorem convertByteBufToString_ok (buf : ArrayBuf) : ∃ str, convertByteBufToString charset buf = .ok str :=
  ⟨_, convertByteBufToString_eq charset buf⟩
end

/-! ## The handler -/

/-- `EmptyByteBuf` is the content of `LastHttpContent.EMPTY_LAST_CONTENT`. -/
inductive Content where
  | empty
  | bytes (buf : ArrayBuf)

/-- What HttpRequestDecoder delivers. -/
inductive HttpObject where
  | request
  | content (c : Content)
  | lastContent (c : Content)

inductive HttpVersion where
  | HTTP_1_0
  | HTTP_1_1
  deriving DecidableEq

structure FullHttpResponse where
  version : HttpVersion
  status : Nat × String
  content : List UInt8
  headers : List (String × String)
  deriving DecidableEq

def resp : FullHttpResponse :=
  let content := Text.getBytes (literal "欢迎来到北京动物园")
  { version := .HTTP_1_1, status := (200, "OK"), content := content
    headers := [("Content-Type", "text/plain;charset=UTF-8"), ("Content-Length", toString content.length),
      ("Connection", "keep-alive")] }

/-- A connection: the responses written while it was open, what was printed and thrown. -/
structure Conn where
  isOpen : Bool
  written : List FullHttpResponse
  console : List JString
  thrown : List Throwable

def accepted : Conn := ⟨true, [], [], []⟩

/-- `ctx.write(resp); ctx.flush()`. -/
def Conn.write (ctx : Conn) (r : FullHttpResponse) : Conn :=
  if ctx.isOpen then { ctx with written := ctx.written ++ [r] } else ctx

def Conn.println (ctx : Conn) (line : JString) : Conn := { ctx with console := ctx.console ++ [line] }

variable (charset : List UInt8 → JString)

namespace HttpServerHandler

/-- `channelRead` up to the response: an HttpContent is cast to LastHttpContent and
    its content printed. -/
def printContent (ctx : Conn) : HttpObject → Except Throwable Conn
  | .request => .ok ctx
  | .content _ => .error .classCast
  | .lastContent .empty => .ok (ctx.println (literal "Content:无数据"))
  | .lastContent (.bytes byteData) => do
    let content ← convertByteBufToString charset byteData
    .ok (ctx.println (literal "Content: " ++ content))

def channelRead (ctx : Conn) (msg : HttpObject) : Except Throwable Conn := do
  let ctx ← printContent charset ctx msg
  .ok (ctx.write resp)

def exceptionCaught (ctx : Conn) (cause : Throwable) : Conn :=
  { ctx with isOpen := false, thrown := ctx.thrown ++ [cause] }

end HttpServerHandler

/-- One object is delivered; `channelRead` throws before it writes anything. -/
def deliver (ctx : Conn) (msg : HttpObject) : Conn :=
  match HttpServerHandler.channelRead charset ctx msg with
  | .ok ctx' => ctx'
  | .error cause => HttpServerHandler.exceptionCaught ctx cause

def run (msgs : List HttpObject) : Conn := msgs.foldl (deliver charset) accepted

/-- A complete request: the chunks of its body but the last, and the last. -/
structure HttpRequest where
  chunks : List Content
  last : Content

def HttpRequest.objects (r : HttpRequest) : List HttpObject :=
  .request :: r.chunks.map .content ++ [.lastContent r.last]

def isLast : HttpObject → Bool
  | .lastContent _ => true
  | _ => false

def isChunk : HttpObject → Bool
  | .content _ => true
  | _ => false

/-- One response per request, in order, none before the request's last content, and no
    exception: responses never run ahead of last contents and catch up with them. -/
def Correlated (reqs : List HttpRequest) : Prop :=
  let msgs := reqs.flatMap HttpRequest.objects
  (run charset msgs).thrown = [] ∧ (run charset msgs).written.length = reqs.length ∧
    ∀ n, (run charset (msgs.take n)).written.length ≤ ((msgs.take n).filter isLast).length

/-! ## What each object does -/

@[simp] theorem write_thrown (ctx : Conn) (r : FullHttpResponse) : (ctx.write r).thrown = ctx.thrown := by
  unfold Conn.write
  split <;> rfl

theorem write_open {ctx : Conn} (h : ctx.isOpen = true) (r : FullHttpResponse) :
    ctx.write r = { ctx with written := ctx.written ++ [r] } := if_pos h

theorem deliver_request (ctx : Conn) : deliver charset ctx .request = ctx.write resp := rfl

theorem deliver_content (ctx : Conn) (c : Content) :
    deliver charset ctx (.content c) = { ctx with isOpen := false, thrown := ctx.thrown ++ [.classCast] } := rfl

theorem deliver_last (ctx : Conn) (c : Content) :
    ∃ line, deliver charset ctx (.lastContent c) = (ctx.println line).write resp := by
  cases c with
  | empty => exact ⟨_, rfl⟩
  | bytes buf =>
    obtain ⟨str, hs⟩ := convertByteBufToString_ok charset buf
    refine ⟨literal "Content: " ++ str, ?_⟩
    rw [deliver, HttpServerHandler.channelRead, HttpServerHandler.printContent, hs]
    rfl

theorem deliver_whole {ctx : Conn} (ho : ctx.isOpen = true) {r : HttpRequest} (hc : r.chunks = []) :
    ∃ line, r.objects.foldl (deliver charset) ctx =
      { ctx with written := ctx.written ++ [resp, resp], console := ctx.console ++ [line] } := by
  have hr : r.objects = [.request, .lastContent r.last] := by
    rw [HttpRequest.objects, hc]
    rfl
  obtain ⟨line, hl⟩ := deliver_last charset (ctx.write resp) r.last
  refine ⟨line, ?_⟩
  rw [hr, List.foldl_cons, List.foldl_cons, List.foldl_nil, deliver_request, hl, write_open ho, Conn.println,
    write_open (by exact ho), List.append_assoc]
  rfl

/-- Requests with no chunks before their last content are answered twice each. -/
theorem written_whole : ∀ (reqs : List HttpRequest) (ctx : Conn), ctx.isOpen = true → (∀ r ∈ reqs, r.chunks = []) →
    ((reqs.flatMap HttpRequest.objects).foldl (deliver charset) ctx).written =
      ctx.written ++ List.replicate (2 * reqs.length) resp := by
  intro reqs
  induction reqs with
  | nil => intro ctx _ _; simp
  | cons r reqs ih =>
    intro ctx ho hc
    obtain ⟨line, hr⟩ := deliver_whole charset ho (hc r List.mem_cons_self)
    rw [List.flatMap_cons, List.foldl_append, hr, ih _ (by exact ho) fun q hq => hc q (List.mem_cons_of_mem r hq)]
    simp [List.replicate_succ, Nat.mul_add]

/-- Every chunk before a last content throws, and nothing else does. -/
theorem thrown_run (msgs : List HttpObject) : ∀ ctx : Conn,
    (msgs.foldl (deliver charset) ctx).thrown = ctx.thrown ++ (msgs.filter isChunk).map fun _ => .classCast := by
  induction msgs with
  | nil => intro ctx; simp
  | cons msg msgs ih =>
    intro ctx
    rw [List.foldl_cons, ih]
    cases msg with
    | request => simp [deliver_request, isChunk]
    | content c =>
      rw [List.filter_cons_of_pos rfl]
      simp [deliver_content]
    | lastContent c =>
      obtain ⟨line, hl⟩ := deliver_last charset ctx c
      simp [hl, isChunk, Conn.println]

/-- The first object of a first request is answered at once. -/
theorem not_correlated_cons (r : HttpRequest) (reqs : List HttpRequest) : ¬ Correlated charset (r :: reqs) := by
  intro h
  have h1 := h.2.2 1
  have ht : ((r :: reqs).flatMap HttpRequest.objects).take 1 = [.request] := rfl
  have hw : (run charset [.request]).written = [resp] := rfl
  rw [ht, hw] at h1
  exact absurd h1 (by decide)

/-- There is one response per request only where there are no requests: each request is
    answered twice where all its body comes with its last content, and each chunk before
    that throws. -/
theorem correlated_iff (reqs : List HttpRequest) :
    (Correlated charset reqs ↔ reqs = []) ∧
      ((∀ r ∈ reqs, r.chunks = []) → (run charset (reqs.flatMap HttpRequest.objects)).written =
        List.replicate (2 * reqs.length) resp) ∧
      (run charset (reqs.flatMap HttpRequest.objects)).thrown =
        ((reqs.flatMap HttpRequest.objects).filter isChunk).map fun _ => .classCast := by
  refine ⟨?_, fun hc => written_whole charset reqs accepted rfl hc, thrown_run charset _ accepted⟩
  constructor
  · intro h
    cases reqs with
    | nil => rfl
    | cons r reqs => exact absurd h (not_correlated_cons charset r reqs)
  · intro h
    subst h
    exact ⟨rfl, rfl, fun n => by simp [run, accepted]⟩

/-- A request without a body gets two responses, the first before its last content. -/
theorem not_correlated_get :
    (run newString (HttpRequest.objects ⟨[], .empty⟩)).written = [resp, resp] ∧
      (run newString ((HttpRequest.objects ⟨[], .empty⟩).take 1)).written = [resp] ∧
      ¬ Correlated newString [⟨[], .empty⟩] :=
  ⟨rfl, rfl, not_correlated_cons newString _ _⟩

end NettyStudy.Http
