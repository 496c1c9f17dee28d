/-
  NettyStudy.Protobuf.BuilderRefinement — SubscribeReq's builders and messages do what
  values do (see `NettyStudy.Protobuf.Builder`).

  Proved, over every sequence of calls on any number of builders and messages:
  - `calls_refine`: builders, messages and results say what they would if every builder and
    message were a value of its own; so no call finds a list it may not change.
  - `built_unchanged`: a message's bytes stay what they are, and are parsed to what it says.
-/

import NettyStudy.Protobuf.BuilderWorld

namespace NettyStudy.Protobuf

open NettyStudy.Text

namespace SubscribeReq

variable {S : Type}

/-! ## Values stay well-formed -/

section
variable [UnknownFieldSet S]

theorem Value.ok_mergeFrom {v u : Value S} (hv : v.Ok) (hu : u.Ok) : (v.mergeFrom u).Ok where
  userName := by
    rw [Value.mergeFrom]
    dsimp only
    split
    · exact hv.userName
    · exact hu.userName
  productName := by
    rw [Value.mergeFrom]
    dsimp only
    split
    · exact hv.productName
    · exact hu.productName
  address b hb := (List.mem_append.mp hb).elim (hv.address b) (hu.address b)
  unknown f hf := by
    rcases UnknownFieldSet.tag_reads (UnknownFieldSet.reads v.unknownFields u.unknownFields) f hf with
      ⟨g, hg, he⟩ | ⟨g, hg, he⟩
    · rw [← he]
      exact hv.unknown g hg
    · rw [← he]
      exact hu.unknown g hg

theorem Value.mergeFrom_default (v : Value S) : v.mergeFrom .empty = v := by
  simp only [Value.mergeFrom, Value.empty, UnknownFieldSet.mergeFrom_getDefaultInstance, List.append_nil]
  rfl

theorem Value.ok_address {v : Value S} (hv : v.Ok) {l : List Utf8} (hl : ∀ b ∈ l, b ∈ v.address ∨ b.Fits) :
    Value.Ok { v with address := l } :=
  ⟨hv.userName, hv.productName, fun b hb => (hl b hb).elim (hv.address b) id, hv.unknown⟩

theorem Value.ok_add {v : Value S} (hv : v.Ok) {b : Utf8} (hb : b.Fits) :
    Value.Ok { v with address := v.address ++ [b] } := by
  refine ok_address hv fun c hc => ?_
  rcases List.mem_append.mp hc with hc | hc
  · exact .inl hc
  · rw [List.mem_singleton.mp hc]
    exact .inr hb

theorem Value.ok_setBytes {v : Value S} (hv : v.Ok) (value : ByteString) {set : Utf8 → Value S}
    (hs : ∀ b : Utf8, b.Fits → (set b).Ok) : (v.setBytes value set).1.Ok := by
  unfold Value.setBytes
  split
  · exact hs _ value.2
  · exact hv

/-- Arguments an array can hold leave strings an array can hold. -/
theorem Value.ok_call {v : Value S} (hv : v.Ok) (op : BuilderOp) : (v.call op).1.Ok := by
  cases op with
  | setSubReqId value => exact ⟨hv.1, hv.2, hv.3, hv.4⟩
  | clearSubReqId => exact ⟨hv.1, hv.2, hv.3, hv.4⟩
  | getUserName => exact hv
  | getUserNameBytes => exact hv
  | setUserName value => exact ⟨value.2, hv.2, hv.3, hv.4⟩
  | setUserNameBytes value => exact ok_setBytes hv value fun b hb => ⟨hb, hv.2, hv.3, hv.4⟩
  | clearUserName => exact ⟨fits_nil, hv.2, hv.3, hv.4⟩
  | getProductName => exact hv
  | getProductNameBytes => exact hv
  | setProductName value => exact ⟨hv.1, value.2, hv.3, hv.4⟩
  | setProductNameBytes value => exact ok_setBytes hv value fun b hb => ⟨hv.1, hb, hv.3, hv.4⟩
  | clearProductName => exact ⟨hv.1, fits_nil, hv.3, hv.4⟩
  | getAddress index =>
    rw [Value.call]
    split <;> exact hv
  | getAddressBytes index =>
    rw [Value.call]
    split <;> exact hv
  | setAddress index value =>
    rw [Value.call]
    split
    · refine ok_address hv fun b hb => ?_
      rcases List.mem_or_eq_of_mem_set hb with hb | rfl
      · exact .inl hb
      · exact .inr value.2
    · exact hv
  | addAddress value => exact ok_add hv value.2
  | addAllAddress values =>
    refine ok_address hv fun b hb => (List.mem_append.mp hb).imp id fun he => ?_
    obtain ⟨s, -, rfl⟩ := List.mem_map.mp he
    exact s.2
  | addAddressBytes value =>
    exact ok_setBytes hv value fun b hb => ok_add hv hb
  | clearAddress => exact ok_address hv fun b hb => absurd hb List.not_mem_nil
  | clear => exact ok_empty

structure Spec.Ok (s : Spec S) : Prop where
  first : s.messages[0]? = some .empty
  messages : ∀ v ∈ s.messages, v.Ok
  builders : ∀ v ∈ s.builders, v.Ok

theorem Spec.Ok.setBuilder {s : Spec S} (hs : s.Ok) (i : Nat) {v : Value S} (hv : v.Ok) :
    Spec.Ok { s with builders := s.builders.set i v } :=
  ⟨hs.first, hs.messages, fun v' hv' => (List.mem_or_eq_of_mem_set hv').elim (hs.builders v') fun he => he ▸ hv⟩

theorem Spec.Ok.addMessage {s : Spec S} (hs : s.Ok) {v : Value S} (hv : v.Ok) :
    Spec.Ok { s with messages := s.messages ++ [v] } := by
  refine ⟨?_, fun v' hv' => (List.mem_append.mp hv').elim (hs.messages v') fun he => List.mem_singleton.mp he ▸ hv,
    hs.builders⟩
  obtain ⟨hl, -⟩ := List.getElem?_eq_some_iff.mp hs.first
  rw [List.getElem?_append_left hl]
  exact hs.first

theorem Spec.Ok.addBuilder {s : Spec S} (hs : s.Ok) {v : Value S} (hv : v.Ok) :
    Spec.Ok { s with builders := s.builders ++ [v] } :=
  ⟨hs.first, hs.messages, fun v' hv' =>
    (List.mem_append.mp hv').elim (hs.builders v') fun he => List.mem_singleton.mp he ▸ hv⟩

theorem Spec.ok_step {s : Spec S} (hs : s.Ok) (op : Op) : (s.step op).1.Ok := by
  cases op with
  | newBuilder => exact hs.addBuilder ok_empty
  | builder i op =>
    rw [Spec.step]
    split
    · rename_i v hv
      exact hs.setBuilder i (Value.ok_call (hs.builders v (List.mem_of_getElem? hv)) op)
    · exact hs
  | build i =>
    rw [Spec.step]
    split
    · rename_i v hv
      exact hs.addMessage (hs.builders v (List.mem_of_getElem? hv))
    · exact hs
  | mergeFrom i j =>
    rw [Spec.step]
    split
    · rename_i v u hv hu
      exact hs.setBuilder i
        (Value.ok_mergeFrom (hs.builders v (List.mem_of_getElem? hv)) (hs.messages u (List.mem_of_getElem? hu)))
    · exact hs
  | addAllAddress i j =>
    rw [Spec.step]
    split
    · rename_i v u hv hu
      have hu := hs.messages u (List.mem_of_getElem? hu)
      exact hs.setBuilder i (Value.ok_address (hs.builders v (List.mem_of_getElem? hv)) fun b hb =>
        (List.mem_append.mp hb).imp id (hu.address b))
    · exact hs
  | toBuilder j =>
    rw [Spec.step]
    split
    · rename_i u hu
      exact hs.addBuilder (hs.messages u (List.mem_of_getElem? hu))
    · exact hs
  | parseFrom bytes =>
    rw [Spec.step]
    split
    · rename_i x hx
      obtain ⟨v, rfl, hv⟩ := (format S).parse_ok hx
      have ho : ((format S).ofValue v).value = v := value_ofValue v
      rw [ho]
      exact hs.addMessage hv
    · exact hs
  | call j c =>
    rw [Spec.step]
    split <;> exact hs

/-! ## Refinement -/

/-- A step of the builders and messages, and one of what they say. -/
structure Refines (x : World S × Result) (y : Spec S × Said) : Prop where
  inv : x.1.Inv
  abs : x.1.abs = y.1
  said : x.2.said = y.2

omit [UnknownFieldSet S] in
theorem World.abs_builders (w : World S) (i : Nat) : w.abs.builders[i]? = w.builders[i]?.map (·.value w.lists) :=
  List.getElem?_map

omit [UnknownFieldSet S] in
theorem World.abs_messages (w : World S) (j : Nat) : w.abs.messages[j]? = w.messages[j]?.map (·.value w.lists) :=
  List.getElem?_map

theorem builder_refines {w : World S} (hw : w.Inv) (i : Nat) (op : BuilderOp) :
    Refines (step w (.builder i op)) (w.abs.step (.builder i op)) := by
  have ha := w.abs_builders i
  cases hb : w.builders[i]? with
  | none =>
    rw [hb] at ha
    simp only [step, Spec.step, hb, ha, Option.map_none]
    exact ⟨hw, rfl, rfl⟩
  | some b =>
    rw [hb] at ha
    obtain ⟨ls', b', r, he, hmv, hv⟩ := Builder.call_spec (hw.builders b (List.mem_of_getElem? hb)) hw.zero op
    obtain ⟨hinv, habs⟩ := hw.moved hb hmv fun k hk => .inl hk
    simp only [step, Spec.step, hb, ha, Option.map_some, he, ← hv]
    exact ⟨hinv, habs, rfl⟩

theorem build_refines {w : World S} (hw : w.Inv) (i : Nat) : Refines (step w (.build i)) (w.abs.step (.build i)) := by
  have ha := w.abs_builders i
  cases hb : w.builders[i]? with
  | none =>
    rw [hb] at ha
    simp only [step, Spec.step, hb, ha, Option.map_none]
    exact ⟨hw, rfl, rfl⟩
  | some b =>
    rw [hb] at ha
    obtain ⟨b', m, he, hmv, hmut', hv, hmi, hmval, hms⟩ :=
      Builder.buildPartial_spec (hw.builders b (List.mem_of_getElem? hb))
    obtain ⟨hinv1, habs1⟩ := hw.moved hb hmv fun k hk => hk.elim
    have hi : (w.builders.set i b')[i]? = some b' := by
      rw [List.getElem?_set_self (List.getElem?_eq_some_iff.mp hb).1]
    have hmi' : m.address_.index < w.lists.length := by
      rw [hmi]
      exact hmv.good.index
    obtain ⟨hinv, habs⟩ := hinv1.addMessage (m := m) hmi' (fun b2 hb2 hmut => by
      obtain ⟨j, hj⟩ := List.mem_iff_getElem?.mp hb2
      rw [hmi]
      refine hinv1.alone hj hmut hi ?_
      rintro rfl
      rw [hj] at hi
      cases hi
      rw [hmut'] at hmut
      cases hmut) hms
    simp only [step, Spec.step, hb, ha, Option.map_some, he]
    refine ⟨hinv, habs.trans ?_, rfl⟩
    rw [habs1, hv, hmval, set_same ha]

theorem mergeFrom_refines {w : World S} (hw : w.Inv) (hs : w.abs.Ok) (i j : Nat) :
    Refines (step w (.mergeFrom i j)) (w.abs.step (.mergeFrom i j)) := by
  have hab := w.abs_builders i
  have ham := w.abs_messages j
  cases hb : w.builders[i]? with
  | none =>
    rw [hb] at hab
    simp only [step, Spec.step, hb, hab, Option.map_none]
    exact ⟨hw, rfl, rfl⟩
  | some b =>
    cases hm : w.messages[j]? with
    | none =>
      rw [hb] at hab
      rw [hm] at ham
      simp only [step, Spec.step, hb, hm, hab, ham, Option.map_none, Option.map_some]
      exact ⟨hw, rfl, rfl⟩
    | some m =>
      rw [hb] at hab
      rw [hm] at ham
      simp only [step, Spec.step, hb, hm, hab, ham, Option.map_some]
      split
      · rename_i hj
        -- the default instance says nothing
        rw [hj, hs.first] at ham
        have hdefault : m.value w.lists = .empty := (Option.some.inj ham).symm
        rw [hdefault, Value.mergeFrom_default, set_same hab]
        exact ⟨hw, rfl, rfl⟩
      · have hmem := List.mem_of_getElem? hm
        obtain ⟨ls', b', m', he, hmv, hv, hma, hms, hmval⟩ :=
          Builder.mergeFrom_spec (hw.builders b (List.mem_of_getElem? hb)) (hw.messages m hmem)
        obtain ⟨hinv1, habs1⟩ := hw.moved hb hmv fun k hk => .inr ⟨m, hmem, hk.symm⟩
        obtain ⟨hinv, habs⟩ := hinv1.setMessage m' hm hma (hmval ls') fun hsize => by
          rw [hms] at hsize ⊢
          exact hinv1.sized m hmem hsize
        simp only [he]
        exact ⟨hinv, (habs.trans habs1).trans (by rw [hv]), rfl⟩

theorem addAllAddress_refines {w : World S} (hw : w.Inv) (i j : Nat) :
    Refines (step w (.addAllAddress i j)) (w.abs.step (.addAllAddress i j)) := by
  have hab := w.abs_builders i
  have ham := w.abs_messages j
  cases hb : w.builders[i]? with
  | none =>
    rw [hb] at hab
    simp only [step, Spec.step, hb, hab, Option.map_none]
    exact ⟨hw, rfl, rfl⟩
  | some b =>
    cases hm : w.messages[j]? with
    | none =>
      rw [hb] at hab
      rw [hm] at ham
      simp only [step, Spec.step, hb, hm, hab, ham, Option.map_none, Option.map_some]
      exact ⟨hw, rfl, rfl⟩
    | some m =>
      rw [hb] at hab
      rw [hm] at ham
      obtain ⟨ls', b', he, hmv, hv⟩ :=
        Builder.add_spec (· = 0) (hw.builders b (List.mem_of_getElem? hb)) (w.lists.elements m.address_)
      obtain ⟨hinv, habs⟩ := hw.moved hb hmv fun k hk => .inl hk
      simp only [step, Spec.step, hb, hm, hab, ham, Option.map_some, he]
      exact ⟨hinv, habs.trans (by rw [hv]; rfl), rfl⟩

theorem toBuilder_refines {w : World S} (hw : w.Inv) (hs : w.abs.Ok) (j : Nat) :
    Refines (step w (.toBuilder j)) (w.abs.step (.toBuilder j)) := by
  have ham := w.abs_messages j
  cases hm : w.messages[j]? with
  | none =>
    rw [hm] at ham
    simp only [step, Spec.step, hm, ham, Option.map_none]
    exact ⟨hw, rfl, rfl⟩
  | some m =>
    rw [hm] at ham
    obtain ⟨hinv0, habs0⟩ := hw.addBuilder
    simp only [step, Spec.step, hm, ham, Option.map_some]
    split
    · rename_i hj
      rw [hj, hs.first] at ham
      have hdefault : m.value w.lists = .empty := (Option.some.inj ham).symm
      rw [hdefault]
      exact ⟨hinv0, habs0, rfl⟩
    · have hmem := List.mem_of_getElem? hm
      have hnew : (w.builders ++ [.new])[w.builders.length]? = some .new := List.getElem?_concat_length
      obtain ⟨ls', b', m', he, hmv, hv, hma, hms, hmval⟩ :=
        Builder.mergeFrom_spec (hinv0.builders .new (List.mem_of_getElem? hnew)) (hw.messages m hmem)
      have hset : (w.builders ++ [Builder.new]).set w.builders.length b' = w.builders ++ [b'] := by simp
      have hvalue : b'.value ls' = m.value w.lists := by
        rw [hv, hw.value_new, mergeFrom_empty]
      obtain ⟨hinv1, habs1⟩ := hinv0.moved hnew hmv fun k hk => .inr ⟨m, hmem, hk.symm⟩
      simp only [hset] at hinv1 habs1
      obtain ⟨hinv, habs⟩ := hinv1.setMessage m' hm hma (hmval ls') fun hsize => by
        rw [hms] at hsize ⊢
        exact hinv1.sized m hmem hsize
      simp only [he]
      refine ⟨hinv, habs.trans (habs1.trans ?_), rfl⟩
      rw [habs0, hvalue]
      simp [World.abs]

theorem parseFrom_refines {w : World S} (hw : w.Inv) (bytes : List UInt8) :
    Refines (step w (.parseFrom bytes)) (w.abs.step (.parseFrom bytes)) := by
  cases hp : parseFrom (S := S) bytes with
  | error e =>
    simp only [step, Spec.step, hp]
    exact ⟨hw, rfl, rfl⟩
  | ok x =>
    simp only [step, Spec.step, hp]
    cases he : x.address_.isEmpty with
    | true =>
      have hnil : x.address_ = [] := List.isEmpty_iff.mp he
      obtain ⟨hinv, habs⟩ := hw.addMessage
        (m := ⟨x.subReqId_, x.userName_, x.productName_, EMPTY, x.unknownFields, -1⟩) hw.nonempty
        (fun b hb hmut => Ne.symm ((hw.builders b hb).owned hmut).2) rfl
      have hv : Object.value w.lists ⟨x.subReqId_, x.userName_, x.productName_, EMPTY, x.unknownFields, -1⟩ =
          x.value := by
        have hz : (w.lists.elements EMPTY).map LazyString.utf8 = [] := hw.zero
        simp only [Object.value, Object.load, value, hz, hnil, List.map_nil]
      exact ⟨hinv, habs.trans (by rw [hv]), rfl⟩
    | false =>
      obtain ⟨hinv1, habs1⟩ := hw.grown (w.lists ++ [x.address_]) (by simp) fun k hk => Lists.texts_append hk _
      obtain ⟨hinv, habs⟩ := hinv1.addMessage
        (m := ⟨x.subReqId_, x.userName_, x.productName_, ⟨w.lists.length, true⟩, x.unknownFields, -1⟩) (by simp)
        (fun b hb hmut => Nat.ne_of_gt (hw.builders b hb).index) rfl
      have hv : Object.value (w.lists ++ [x.address_])
          ⟨x.subReqId_, x.userName_, x.productName_, ⟨w.lists.length, true⟩, x.unknownFields, -1⟩ = x.value := by
        simp only [Object.value, Object.load, value, Lists.elements_append_new]
      exact ⟨hinv, habs.trans (by rw [habs1, hv]), rfl⟩

/-- An array is either of the length of the bytes or shorter. -/
theorem said_toByteArray {m : SubscribeReq S} (hm : Sized m) (hv : m.value.Ok) :
    (m.result .toByteArray).said = m.value.result .toByteArray := by
  rw [result, toByteArray_cases hm hv, Value.result]
  by_cases hl : (serialize m.value.fields).length < 0x80000000
  · rw [if_pos hl, if_pos hl]
    rfl
  · have hlt := (Int32.ofNat (serialize m.value.fields).length).toInt_lt
    rw [if_neg hl, if_neg hl, getSerializedSize_sized hm hv, writeTo_fst, toByteArrayThrows]
    dsimp only
    rw [if_pos (by omega : (Int32.ofNat (serialize m.value.fields).length).toInt < (serialize m.value.fields).length)]
    rfl

/-- What a call on a message returns says what it does of what the message says. -/
theorem said_result {m : SubscribeReq S} (hm : Sized m) (hv : m.value.Ok) (c : Call) :
    (m.result c).said = m.value.result c := by
  have hget : ∀ index : Nat, m.value.address[index]? = m.address_[index]?.map LazyString.utf8 :=
    fun index => List.getElem?_map
  cases c with
  | getUserName => exact congrArg Said.text m.userName_.copyFromUtf8_get
  | getUserNameBytes => exact congrArg Said.text m.userName_.getByteString_fst
  | getProductName => exact congrArg Said.text m.productName_.copyFromUtf8_get
  | getProductNameBytes => exact congrArg Said.text m.productName_.getByteString_fst
  | getAddress index =>
    rw [result, Value.result, hget]
    cases m.address_[index]? with
    | none => rfl
    | some x => exact congrArg Said.text x.copyFromUtf8_get
  | getAddressBytes index =>
    rw [result, Value.result, hget]
    cases m.address_[index]? with
    | none => rfl
    | some x => exact congrArg Said.text x.getByteString_fst
  | getAddressList => simp [result, Value.result, Result.said, getAddressList, value, Function.comp_def]
  | writeTo => exact congrArg Said.array m.writeTo_fst
  | getSerializedSize => exact congrArg Said.size (getSerializedSize_sized hm hv)
  | toByteArray => exact said_toByteArray hm hv

theorem call_refines {w : World S} (hw : w.Inv) (hs : w.abs.Ok) (j : Nat) (c : Call) :
    Refines (step w (.call j c)) (w.abs.step (.call j c)) := by
  have ham := w.abs_messages j
  cases hm : w.messages[j]? with
  | none =>
    rw [hm] at ham
    simp only [step, Spec.step, hm, ham, Option.map_none]
    exact ⟨hw, rfl, rfl⟩
  | some m =>
    rw [hm] at ham
    have hmem := List.mem_of_getElem? hm
    have hok : (m.load w.lists).value.Ok := hs.messages _ (List.mem_of_getElem? ham)
    have hsz : Sized (m.load w.lists) := fun hsize => by
      rw [writeTo_fst]
      exact hw.sized m hmem hsize
    have hval := value_call (m.load w.lists) c
    let x := (m.load w.lists).call c
    have htexts : x.address_.map LazyString.utf8 = w.lists.texts m.address_.index := congrArg Value.address hval
    obtain ⟨hinv1, habs1⟩ := hw.grown (w.lists.set m.address_.index x.address_) (by simp)
      fun k _ => Lists.texts_cache w.lists htexts k
    have hload : (m.store x).load (w.lists.set m.address_.index x.address_) = x := by
      have he := Lists.elements_set (hw.messages m hmem) x.address_
      simp only [Object.load, Object.store, he]
    have hstore : (m.store x).value (w.lists.set m.address_.index x.address_) =
        m.value (w.lists.set m.address_.index x.address_) := by
      have hsame := World.value_congr (m := m) (Lists.texts_cache w.lists htexts m.address_.index)
      rw [Object.value, hload, hsame]
      exact hval
    obtain ⟨hinv, habs⟩ := hinv1.setMessage (m.store x) hm rfl hstore fun hsize => by
      have hsized := sized_call hsz hok c hsize
      rw [writeTo_fst, hval] at hsized
      rw [World.value_congr (m := m) (Lists.texts_cache w.lists htexts m.address_.index)]
      exact hsized
    simp only [step, Spec.step, hm, ham, Option.map_some]
    exact ⟨hinv, habs.trans habs1, said_result hsz hok c⟩

theorem step_refines {w : World S} (hw : w.Inv) (hs : w.abs.Ok) (op : Op) : Refines (step w op) (w.abs.step op) := by
  cases op with
  | newBuilder =>
    obtain ⟨hinv, habs⟩ := hw.addBuilder
    exact ⟨hinv, habs, rfl⟩
  | builder i op => exact builder_refines hw i op
  | build i => exact build_refines hw i
  | mergeFrom i j => exact mergeFrom_refines hw hs i j
  | addAllAddress i j => exact addAllAddress_refines hw i j
  | toBuilder j => exact toBuilder_refines hw hs j
  | parseFrom bytes => exact parseFrom_refines hw bytes
  | call j c => exact call_refines hw hs j c

theorem run_refines (ops : List Op) : ∀ {w : World S}, w.Inv → w.abs.Ok →
    (run w ops).1.Inv ∧ ((run w ops).1.abs, (run w ops).2.map Result.said) = w.abs.run ops := by
  induction ops with
  | nil => exact fun hw _ => ⟨hw, rfl⟩
  | cons op ops ih =>
    intro w hw hs
    have hr := step_refines hw hs op
    obtain ⟨hinv, hrun⟩ := ih hr.inv (by rw [hr.abs]; exact Spec.ok_step hs op)
    rw [hr.abs] at hrun
    refine ⟨hinv, ?_⟩
    simp only [run, Spec.run, List.map_cons, hr.said, ← hrun]

theorem inv_init : (World.init S).Inv where
  nonempty := Nat.one_pos
  zero := rfl
  messages m hm := by
    rw [List.mem_singleton.mp hm]
    exact Nat.one_pos
  builders b hb := absurd hb List.not_mem_nil
  apart b hb := absurd hb List.not_mem_nil
  alone h := by cases h
  sized m hm hs := by
    rw [List.mem_singleton.mp hm] at hs
    exact absurd rfl hs

theorem ok_init : (Spec.init S).Ok :=
  ⟨rfl, fun _ hv => List.mem_singleton.mp hv ▸ ok_empty, fun _ hv => absurd hv List.not_mem_nil⟩

/-- Any calls on any builders and messages leave them saying, and return, what they would
    if every builder and message were a value of its own. -/
theorem calls_refine (ops : List Op) :
    ((run (World.init S) ops).1.abs, (run (World.init S) ops).2.map Result.said) = (Spec.init S).run ops :=
  (run_refines ops inv_init ok_init).2

/-! ### Messages do not change -/

theorem Spec.messages_step (s : Spec S) (op : Op) : s.messages <+: (s.step op).1.messages := by
  cases op with
  | newBuilder => exact List.prefix_rfl
  | builder i op =>
    rw [Spec.step]
    split <;> exact List.prefix_rfl
  | build i =>
    rw [Spec.step]
    split
    · exact List.prefix_append _ _
    · exact List.prefix_rfl
  | mergeFrom i j =>
    rw [Spec.step]
    split <;> exact List.prefix_rfl
  | addAllAddress i j =>
    rw [Spec.step]
    split <;> exact List.prefix_rfl
  | toBuilder j =>
    rw [Spec.step]
    split <;> exact List.prefix_rfl
  | parseFrom bytes =>
    rw [Spec.step]
    split
    · exact List.prefix_append _ _
    · exact List.prefix_rfl
  | call j c =>
    rw [Spec.step]
    split <;> exact List.prefix_rfl

theorem Spec.messages_run (ops : List Op) : ∀ s : Spec S, s.messages <+: (s.run ops).1.messages := by
  induction ops with
  | nil => exact fun s => List.prefix_rfl
  | cons op ops ih => exact fun s => (s.messages_step op).trans (ih _)

theorem Spec.ok_run (ops : List Op) : ∀ {s : Spec S}, s.Ok → (s.run ops).1.Ok := by
  induction ops with
  | nil => exact fun hs => hs
  | cons op ops ih => exact fun hs => ih (ok_step hs op)

theorem run_append (ops later : List Op) : ∀ w : World S, (run w (ops ++ later)).1 = (run (run w ops).1 later).1 := by
  induction ops with
  | nil => exact fun w => rfl
  | cons op ops ih => exact fun w => ih _

/-- A message of a reachable world writes the bytes of what it says. -/
theorem toByteArray_load {w : World S} (hw : w.Inv) (hs : w.abs.Ok) {j : Nat} {m : Object S}
    (hm : w.messages[j]? = some m) (hl : (serialize (m.value w.lists).fields).length < 0x80000000) :
    (m.load w.lists).toByteArray = some (serialize (m.value w.lists).fields, (m.load w.lists).call .toByteArray) := by
  have ham : w.abs.messages[j]? = some (m.value w.lists) := by
    rw [World.abs_messages, hm]
    rfl
  refine toByteArray_eq (fun hsize => ?_) ⟨hs.messages _ (List.mem_of_getElem? ham), hl⟩
  rw [writeTo_fst]
  exact hw.sized m (List.mem_of_getElem? hm) hsize

/-- Whatever is called later, on the builder it was built by, on builders it is merged
    into, on itself or on any other message, a message of fewer than 2^31 bytes keeps them,
    and they are parsed to a message that says what it does. -/
theorem built_unchanged (ops later : List Op) (j : Nat) (m : Object S)
    (hm : (run (World.init S) ops).1.messages[j]? = some m)
    (hl : (serialize (m.value (run (World.init S) ops).1.lists).fields).length < 0x80000000) :
    ∃ m' bs x x' d, (run (World.init S) (ops ++ later)).1.messages[j]? = some m' ∧
      (m.load (run (World.init S) ops).1.lists).toByteArray = some (bs, x) ∧
      (m'.load (run (World.init S) (ops ++ later)).1.lists).toByteArray = some (bs, x') ∧
      parseFrom bs = .ok d ∧ d.value = (m.load (run (World.init S) ops).1.lists).value := by
  obtain ⟨hinv1, hrun1⟩ := run_refines ops (inv_init (S := S)) ok_init
  rw [run_append]
  generalize (run (World.init S) ops).1 = w1 at *
  have hok1 : w1.abs.Ok := by
    rw [show w1.abs = _ from congrArg Prod.fst hrun1]
    exact Spec.ok_run ops ok_init
  obtain ⟨hinv2, hrun2⟩ := run_refines later hinv1 hok1
  generalize (run w1 later).1 = w2 at *
  have habs2 : w2.abs = (w1.abs.run later).1 := congrArg Prod.fst hrun2
  have hok2 : w2.abs.Ok := by
    rw [habs2]
    exact Spec.ok_run later hok1
  have hj2 : w2.abs.messages[j]? = some (m.value w1.lists) := by
    have hj1 := w1.abs_messages j
    rw [hm] at hj1
    obtain ⟨t, ht⟩ := Spec.messages_run later w1.abs
    rw [habs2, ← ht, List.getElem?_append_left (List.getElem?_eq_some_iff.mp hj1).1]
    exact hj1
  rw [World.abs_messages] at hj2
  obtain ⟨m', hm', hv⟩ := Option.map_eq_some_iff.mp hj2
  have hb1 := toByteArray_load hinv1 hok1 hm hl
  have hb2 := toByteArray_load hinv2 hok2 hm' (by rw [hv]; exact hl)
  rw [hv] at hb2
  have hvok : (m.value w1.lists).Ok := by
    have hj1 := w1.abs_messages j
    rw [hm] at hj1
    exact hok1.messages _ (List.mem_of_getElem? hj1)
  exact ⟨m', _, _, _, ofValue (m.value w1.lists), hm', hb1, hb2, (format S).parse_serialize hvok, value_ofValue _⟩

/-- A message is built, and then its builder's address set, its own asked for as bytes and
    those of another builder of it cleared. -/
theorem built_unchanged_test :
    let ops : List Op := [.newBuilder, .builder 0 (.addAddress ⟨literal "a", by decide⟩), .build 0]
    let later : List Op := [.builder 0 (.setAddress 0 ⟨literal "b", by decide⟩), .call 1 (.getAddressBytes 0),
      .toBuilder 1, .builder 1 .clearAddress]
    let m : Object Varints := ⟨0, .string [], .string [], ⟨1, true⟩, [], -1⟩
    ∃ m' bs x x' d, (run (World.init Varints) (ops ++ later)).1.messages[1]? = some m' ∧
      (m.load (run (World.init Varints) ops).1.lists).toByteArray = some (bs, x) ∧
      (m'.load (run (World.init Varints) (ops ++ later)).1.lists).toByteArray = some (bs, x') ∧
      parseFrom bs = .ok d ∧ d.value = (m.load (run (World.init Varints) ops).1.lists).value :=
  built_unchanged _ _ 1 _ rfl (by decide)

end

end SubscribeReq

end NettyStudy.Protobuf
