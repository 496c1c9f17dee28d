/-
  NettyStudy.Protobuf.Builder — SubscribeReq's builders and the messages they build, with
  the address lists they share. A builder's list is the message's once it is built, and a
  message's is the builder's once it is merged into one with no addresses; which of them may
  change its list is a bit (`bitField0_ & 0x00000008`), and the list is copied when it is
  not set. Getters of a message also store into the list they share.

  `step` is a call on any of any number of builders and messages. `Spec` is what they are
  for: builders and messages are values, every builder has its own, and a message never
  changes. `NettyStudy.Protobuf.BuilderProofs` proves that the calls do that. Results are
  compared by what they say (`Result.said`): a string by its UTF-8.

  Arguments are strings and byte strings an array can hold. Of `addAllAddress` there are a
  list of strings and a message's `getAddressList()`. Left out are null arguments, which
  are a NullPointerException before anything else, `mergeFrom` of a stream, and a builder's
  `getAddressList()`, a view that goes on to show what the builder does.
-/

import NettyStudy.Protobuf.SubscribeReq

namespace NettyStudy.Protobuf

open NettyStudy.Text

/-! ## LazyStringLists -/

/-- A LazyStringArrayList, or an unmodifiable view of it. -/
structure ListRef where
  index : Nat
  isView : Bool

/-- Every LazyStringArrayList there is. -/
abbrev Lists := List (List LazyString)

def Lists.elements (ls : Lists) (ref : ListRef) : List LazyString := ls.getD ref.index []

/-- `LazyStringArrayList.EMPTY`, of the first list, which has no elements. -/
def EMPTY : ListRef := ⟨0, true⟩

def ListRef.getUnmodifiableView (ref : ListRef) : ListRef := { ref with isView := true }

inductive Thrown where
  | indexOutOfBounds
  | illegalArgument
  | negativeArraySize
  /-- A RuntimeException for an OutOfSpaceException. -/
  | outOfSpace
  | illegalState
  | unsupportedOperation
  | invalidProtocolBuffer (e : InvalidProtocolBufferException)
  deriving DecidableEq

/-- What a call returns. -/
inductive Result where
  | done
  | string (s : JString)
  | byteString (b : Utf8)
  | strings (l : List JString)
  | size (n : Int32)
  | array (bytes : List UInt8)
  | thrown (e : Thrown)

/-- What a result says. -/
inductive Said where
  | done
  | text (b : Utf8)
  | texts (l : List Utf8)
  | size (n : Int32)
  | array (bytes : List UInt8)
  | thrown (e : Thrown)

def Result.said : Result → Said
  | .done => .done
  | .string s => .text (copyFromUtf8 s)
  | .byteString b => .text b
  | .strings l => .texts (l.map copyFromUtf8)
  | .size n => .size n
  | .array bytes => .array bytes
  | .thrown e => .thrown e

/-- A String whose bytes an array can hold. -/
abbrev FitString := {s : JString // (copyFromUtf8 s).Fits}

abbrev ByteString := {bytes : List UInt8 // bytes.length < 0x80000000}

variable {S : Type}

/-! ## Messages -/

namespace SubscribeReq

/-- A message with a reference to its addresses. -/
structure Object (S : Type) where
  subReqId_ : Int32
  userName_ : LazyString
  productName_ : LazyString
  address_ : ListRef
  unknownFields : S
  memoizedSize : Int32

def Object.load (ls : Lists) (m : Object S) : SubscribeReq S :=
  ⟨m.subReqId_, m.userName_, m.productName_, ls.elements m.address_, m.unknownFields, m.memoizedSize⟩

def Object.store (m : Object S) (x : SubscribeReq S) : Object S :=
  ⟨x.subReqId_, x.userName_, x.productName_, m.address_, x.unknownFields, x.memoizedSize⟩

/-- What `toByteArray` throws, of `length` bytes and an array that is not of their length. -/
def toByteArrayThrows (size : Int32) (length : Nat) : Thrown :=
  if size < 0 then .negativeArraySize else if size.toInt < length then .outOfSpace else .illegalState

/-- What a call on a message returns. -/
def result [UnknownFieldSet S] (m : SubscribeReq S) : Call → Result
  | .getUserName => .string m.getUserName.1
  | .getUserNameBytes => .byteString m.getUserNameBytes.1
  | .getProductName => .string m.getProductName.1
  | .getProductNameBytes => .byteString m.getProductNameBytes.1
  | .getAddress index =>
    match m.address_[index]? with
    | some x => .string x.get.1
    | none => .thrown .indexOutOfBounds
  | .getAddressBytes index =>
    match m.address_[index]? with
    | some x => .byteString x.getByteString.1
    | none => .thrown .indexOutOfBounds
  | .getAddressList => .strings m.getAddressList
  | .writeTo => .array m.writeTo.1
  | .getSerializedSize => .size m.getSerializedSize.1
  | .toByteArray =>
    match m.toByteArray with
    | some (bytes, _) => .array bytes
    | none => .thrown (toByteArrayThrows m.getSerializedSize.1 m.writeTo.1.length)

/-! ## Builders -/

structure Builder (S : Type) where
  /-- `(bitField0_ & 0x00000008) != 0`. -/
  addressIsMutable : Bool
  subReqId_ : Int32
  userName_ : LazyString
  productName_ : LazyString
  address_ : ListRef
  unknownFields : S

/-- A call on one builder. -/
inductive BuilderOp where
  | setSubReqId (value : Int32)
  | clearSubReqId
  | getUserName
  | getUserNameBytes
  | setUserName (value : FitString)
  | setUserNameBytes (value : ByteString)
  | clearUserName
  | getProductName
  | getProductNameBytes
  | setProductName (value : FitString)
  | setProductNameBytes (value : ByteString)
  | clearProductName
  | getAddress (index : Nat)
  | getAddressBytes (index : Nat)
  | setAddress (index : Nat) (value : FitString)
  | addAddress (value : FitString)
  | addAllAddress (values : List FitString)
  | addAddressBytes (value : ByteString)
  | clearAddress
  | clear

namespace Builder

/-- `new Builder()`. -/
def new [UnknownFieldSet S] : Builder S := ⟨false, 0, .string [], .string [], EMPTY, UnknownFieldSet.getDefaultInstance⟩

def ensureAddressIsMutable (ls : Lists) (b : Builder S) : Lists × Builder S :=
  if !b.addressIsMutable then
    (ls ++ [ls.elements b.address_], { b with address_ := ⟨ls.length, false⟩, addressIsMutable := true })
  else (ls, b)

/-- A change of the builder's list, which a view refuses. -/
def changeAddress (ls : Lists) (b : Builder S) (f : List LazyString → Except Thrown (List LazyString)) :
    Lists × Builder S × Result :=
  let (ls, b) := ensureAddressIsMutable ls b
  if b.address_.isView then (ls, b, .thrown .unsupportedOperation)
  else match f (ls.elements b.address_) with
    | .error e => (ls, b, .thrown e)
    | .ok l => (ls.set b.address_.index l, b, .done)

def getAddress (ls : Lists) (b : Builder S) (index : Nat) : Lists × Builder S × Result :=
  match (ls.elements b.address_)[index]? with
  | some x => (ls.set b.address_.index ((ls.elements b.address_).set index x.get.2), b, .string x.get.1)
  | none => (ls, b, .thrown .indexOutOfBounds)

def getAddressBytes (ls : Lists) (b : Builder S) (index : Nat) : Lists × Builder S × Result :=
  match (ls.elements b.address_)[index]? with
  | some x =>
    (ls.set b.address_.index ((ls.elements b.address_).set index x.getByteString.2), b, .byteString x.getByteString.1)
  | none => (ls, b, .thrown .indexOutOfBounds)

def setAddress (ls : Lists) (b : Builder S) (index : Nat) (value : FitString) : Lists × Builder S × Result :=
  changeAddress ls b fun l => if index < l.length then .ok (l.set index (.string value.1)) else .error .indexOutOfBounds

def addAddress (ls : Lists) (b : Builder S) (value : FitString) : Lists × Builder S × Result :=
  changeAddress ls b fun l => .ok (l ++ [.string value.1])

/-- Of a LazyStringList the elements are added as it holds them. -/
def addAllAddress (ls : Lists) (b : Builder S) (values : List LazyString) : Lists × Builder S × Result :=
  changeAddress ls b fun l => .ok (l ++ values)

def addAddressBytes (ls : Lists) (b : Builder S) (value : ByteString) : Lists × Builder S × Result :=
  if h : ValidUtf8 value.1 then changeAddress ls b fun l => .ok (l ++ [.byteString ⟨value.1, h⟩])
  else (ls, b, .thrown .illegalArgument)

variable [UnknownFieldSet S]

def call (ls : Lists) (b : Builder S) : BuilderOp → Lists × Builder S × Result
  | .setSubReqId value => (ls, { b with subReqId_ := value }, .done)
  | .clearSubReqId => (ls, { b with subReqId_ := 0 }, .done)
  | .getUserName => (ls, { b with userName_ := b.userName_.get.2 }, .string b.userName_.get.1)
  | .getUserNameBytes =>
    (ls, { b with userName_ := b.userName_.getByteString.2 }, .byteString b.userName_.getByteString.1)
  | .setUserName value => (ls, { b with userName_ := .string value.1 }, .done)
  | .setUserNameBytes value =>
    if h : ValidUtf8 value.1 then (ls, { b with userName_ := .byteString ⟨value.1, h⟩ }, .done)
    else (ls, b, .thrown .illegalArgument)
  | .clearUserName => (ls, { b with userName_ := .string [] }, .done)
  | .getProductName => (ls, { b with productName_ := b.productName_.get.2 }, .string b.productName_.get.1)
  | .getProductNameBytes =>
    (ls, { b with productName_ := b.productName_.getByteString.2 }, .byteString b.productName_.getByteString.1)
  | .setProductName value => (ls, { b with productName_ := .string value.1 }, .done)
  | .setProductNameBytes value =>
    if h : ValidUtf8 value.1 then (ls, { b with productName_ := .byteString ⟨value.1, h⟩ }, .done)
    else (ls, b, .thrown .illegalArgument)
  | .clearProductName => (ls, { b with productName_ := .string [] }, .done)
  | .getAddress index => b.getAddress ls index
  | .getAddressBytes index => b.getAddressBytes ls index
  | .setAddress index value => b.setAddress ls index value
  | .addAddress value => b.addAddress ls value
  | .addAllAddress values => b.addAllAddress ls (values.map fun s => .string s.1)
  | .addAddressBytes value => b.addAddressBytes ls value
  | .clearAddress => (ls, { b with address_ := EMPTY, addressIsMutable := false }, .done)
  | .clear =>
    (ls, { subReqId_ := 0, userName_ := .string [], productName_ := .string [], address_ := EMPTY
           addressIsMutable := false, unknownFields := UnknownFieldSet.getDefaultInstance }, .done)

omit [UnknownFieldSet S] in
def buildPartial (b : Builder S) : Builder S × Object S :=
  let b :=
    if b.addressIsMutable then { b with address_ := b.address_.getUnmodifiableView, addressIsMutable := false } else b
  (b, ⟨b.subReqId_, b.userName_, b.productName_, b.address_, b.unknownFields, -1⟩)

omit [UnknownFieldSet S] in
/-- `mergeFrom(SubscribeReq other)` as far as `productName_`; the getters leave strings
    behind in it. -/
def mergeSingular (b : Builder S) (other : Object S) : Builder S × Object S :=
  let b := if other.subReqId_ ≠ 0 then { b with subReqId_ := other.subReqId_ } else b
  let (userName, ref) := other.userName_.get
  let other := { other with userName_ := ref }
  let b := if !userName.isEmpty then { b with userName_ := other.userName_ } else b
  let (productName, ref) := other.productName_.get
  let other := { other with productName_ := ref }
  let b := if !productName.isEmpty then { b with productName_ := other.productName_ } else b
  (b, other)

omit [UnknownFieldSet S] in
/-- Its `address_`. -/
def mergeAddress (ls : Lists) (b : Builder S) (other : Object S) : Lists × Builder S × Result :=
  if !(ls.elements other.address_).isEmpty then
    if (ls.elements b.address_).isEmpty then
      (ls, { b with address_ := other.address_, addressIsMutable := false }, .done)
    else b.addAllAddress ls (ls.elements other.address_)
  else (ls, b, .done)

/-- `mergeFrom(SubscribeReq other)`, of another than the default instance. -/
def mergeFrom (ls : Lists) (b : Builder S) (other : Object S) : Lists × Builder S × Object S × Result :=
  let (b, other) := b.mergeSingular other
  match b.mergeAddress ls other with
  | (ls, b, .thrown e) => (ls, b, other, .thrown e)
  | (ls, b, r) =>
    (ls, { b with unknownFields := UnknownFieldSet.mergeFrom b.unknownFields other.unknownFields }, other, r)

end Builder

/-! ## Any number of them -/

/-- The lists, messages and builders there are. The first message is the default instance. -/
structure World (S : Type) where
  lists : Lists
  messages : List (Object S)
  builders : List (Builder S)

inductive Op where
  | newBuilder
  /-- A call on the `i`-th builder. -/
  | builder (i : Nat) (op : BuilderOp)
  | build (i : Nat)
  /-- The `j`-th message is merged into the `i`-th builder. -/
  | mergeFrom (i j : Nat)
  | addAllAddress (i j : Nat)
  | toBuilder (j : Nat)
  | parseFrom (bytes : List UInt8)
  | call (j : Nat) (c : Call)

variable [UnknownFieldSet S]

variable (S) in
def World.init : World S := ⟨[[]], [⟨0, .string [], .string [], EMPTY, UnknownFieldSet.getDefaultInstance, -1⟩], []⟩

/-- A call on a builder or message there is none of is none. -/
def step (w : World S) : Op → World S × Result
  | .newBuilder => ({ w with builders := w.builders ++ [.new] }, .done)
  | .builder i op =>
    match w.builders[i]? with
    | some b =>
      let (ls, b, r) := b.call w.lists op
      ({ w with lists := ls, builders := w.builders.set i b }, r)
    | none => (w, .done)
  | .build i =>
    match w.builders[i]? with
    | some b =>
      let (b, m) := b.buildPartial
      ({ w with messages := w.messages ++ [m], builders := w.builders.set i b }, .done)
    | none => (w, .done)
  | .mergeFrom i j =>
    match w.builders[i]?, w.messages[j]? with
    | some b, some m =>
      if j = 0 then (w, .done)
      else
        let (ls, b, m, r) := b.mergeFrom w.lists m
        ({ lists := ls, messages := w.messages.set j m, builders := w.builders.set i b }, r)
    | _, _ => (w, .done)
  | .addAllAddress i j =>
    match w.builders[i]?, w.messages[j]? with
    | some b, some m =>
      let (ls, b, r) := b.addAllAddress w.lists (w.lists.elements m.address_)
      ({ w with lists := ls, builders := w.builders.set i b }, r)
    | _, _ => (w, .done)
  | .toBuilder j =>
    match w.messages[j]? with
    | some m =>
      if j = 0 then ({ w with builders := w.builders ++ [.new] }, .done)
      else
        let (ls, b, m, r) := Builder.new.mergeFrom w.lists m
        ({ lists := ls, messages := w.messages.set j m, builders := w.builders ++ [b] }, r)
    | none => (w, .done)
  | .parseFrom bytes =>
    match parseFrom bytes with
    | .ok x =>
      let (ls, ref) :=
        if x.address_.isEmpty then (w.lists, EMPTY)
        else (w.lists ++ [x.address_], ListRef.getUnmodifiableView ⟨w.lists.length, false⟩)
      ({ w with lists := ls
                messages := w.messages ++
                  [⟨x.subReqId_, x.userName_, x.productName_, ref, x.unknownFields, -1⟩] }, .done)
    | .error e => (w, .thrown (.invalidProtocolBuffer e))
  | .call j c =>
    match w.messages[j]? with
    | some m =>
      let x := (m.load w.lists).call c
      ({ w with lists := w.lists.set m.address_.index x.address_, messages := w.messages.set j (m.store x) },
        (m.load w.lists).result c)
    | none => (w, .done)

/-- Calls one after the other, and what each returns. -/
def run (w : World S) : List Op → World S × List Result
  | [] => (w, [])
  | op :: ops =>
    let (w, r) := step w op
    let (w, rs) := run w ops
    (w, r :: rs)

/-! ## Values -/

namespace Value

/-- What a call on a message returns, of what the message says. -/
def result (v : Value S) : Call → Said
  | .getUserName | .getUserNameBytes => .text v.userName
  | .getProductName | .getProductNameBytes => .text v.productName
  | .getAddress index | .getAddressBytes index =>
    match v.address[index]? with
    | some b => .text b
    | none => .thrown .indexOutOfBounds
  | .getAddressList => .texts v.address
  | .writeTo => .array (serialize v.fields)
  | .getSerializedSize => .size (.ofNat (serialize v.fields).length)
  | .toByteArray =>
    if (serialize v.fields).length < 0x80000000 then .array (serialize v.fields)
    else .thrown (if Int32.ofNat (serialize v.fields).length < 0 then .negativeArraySize else .outOfSpace)

def setBytes (v : Value S) (value : ByteString) (set : Utf8 → Value S) : Value S × Said :=
  if h : ValidUtf8 value.1 then (set ⟨value.1, h⟩, .done) else (v, .thrown .illegalArgument)

/-- What a call on a builder makes of what it says. -/
def call (v : Value S) : BuilderOp → Value S × Said
  | .setSubReqId value => ({ v with subReqId := value }, .done)
  | .clearSubReqId => ({ v with subReqId := 0 }, .done)
  | .getUserName | .getUserNameBytes => (v, .text v.userName)
  | .setUserName value => ({ v with userName := copyFromUtf8 value.1 }, .done)
  | .setUserNameBytes value => v.setBytes value fun b => { v with userName := b }
  | .clearUserName => ({ v with userName := copyFromUtf8 [] }, .done)
  | .getProductName | .getProductNameBytes => (v, .text v.productName)
  | .setProductName value => ({ v with productName := copyFromUtf8 value.1 }, .done)
  | .setProductNameBytes value => v.setBytes value fun b => { v with productName := b }
  | .clearProductName => ({ v with productName := copyFromUtf8 [] }, .done)
  | .getAddress index | .getAddressBytes index =>
    match v.address[index]? with
    | some b => (v, .text b)
    | none => (v, .thrown .indexOutOfBounds)
  | .setAddress index value =>
    if index < v.address.length then ({ v with address := v.address.set index (copyFromUtf8 value.1) }, .done)
    else (v, .thrown .indexOutOfBounds)
  | .addAddress value => ({ v with address := v.address ++ [copyFromUtf8 value.1] }, .done)
  | .addAllAddress values => ({ v with address := v.address ++ values.map fun s => copyFromUtf8 s.1 }, .done)
  | .addAddressBytes value => v.setBytes value fun b => { v with address := v.address ++ [b] }
  | .clearAddress => ({ v with address := [] }, .done)
  | .clear => (empty, .done)

end Value

/-- Messages and builders as values of their own. -/
structure Spec (S : Type) where
  messages : List (Value S)
  builders : List (Value S)

variable (S) in
def Spec.init : Spec S := ⟨[.empty], []⟩

def Spec.step (s : Spec S) : Op → Spec S × Said
  | .newBuilder => ({ s with builders := s.builders ++ [.empty] }, .done)
  | .builder i op =>
    match s.builders[i]? with
    | some v => ({ s with builders := s.builders.set i (v.call op).1 }, (v.call op).2)
    | none => (s, .done)
  | .build i =>
    match s.builders[i]? with
    | some v => ({ s with messages := s.messages ++ [v] }, .done)
    | none => (s, .done)
  | .mergeFrom i j =>
    match s.builders[i]?, s.messages[j]? with
    | some v, some u => ({ s with builders := s.builders.set i (v.mergeFrom u) }, .done)
    | _, _ => (s, .done)
  | .addAllAddress i j =>
    match s.builders[i]?, s.messages[j]? with
    | some v, some u => ({ s with builders := s.builders.set i { v with address := v.address ++ u.address } }, .done)
    | _, _ => (s, .done)
  | .toBuilder j =>
    match s.messages[j]? with
    | some u => ({ s with builders := s.builders ++ [u] }, .done)
    | none => (s, .done)
  | .parseFrom bytes =>
    match parseFrom (S := S) bytes with
    | .ok x => ({ s with messages := s.messages ++ [x.value] }, .done)
    | .error e => (s, .thrown (.invalidProtocolBuffer e))
  | .call j c =>
    match s.messages[j]? with
    | some u => (s, u.result c)
    | none => (s, .done)

def Spec.run (s : Spec S) : List Op → Spec S × List Said
  | [] => (s, [])
  | op :: ops =>
    let (s, r) := s.step op
    let (s, rs) := s.run ops
    (s, r :: rs)

end SubscribeReq

end NettyStudy.Protobuf
