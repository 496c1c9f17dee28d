/-
  NettyStudy.Protobuf.BuilderProofs — what a call on one builder does, to it and to the
  lists (see `NettyStudy.Protobuf.Builder`).

  Proved: `call_spec`, `add_spec`, `buildPartial_spec` and `mergeFrom_spec`, that a call does
  to the builder what it does to what the builder says, and that it `Moves`: it changes no
  list but one that the builder may change, and leaves it with such a one or none.
-/

import NettyStudy.Protobuf.Builder

namespace NettyStudy.Protobuf

open NettyStudy.Text

/-! ## Lists -/

theorem of_set {α : Type} {l : List α} {i j : Nat} {x y : α} (h : (l.set i x)[j]? = some y) :
    j = i ∧ y = x ∨ j ≠ i ∧ l[j]? = some y := by
  by_cases hij : i = j
  · subst hij
    rw [List.getElem?_set_self'] at h
    obtain ⟨z, -, rfl⟩ := Option.map_eq_some_iff.mp h
    exact .inl ⟨rfl, rfl⟩
  · rw [List.getElem?_set_ne hij] at h
    exact .inr ⟨Ne.symm hij, h⟩

theorem map_set_congr {α β : Type} {l : List α} {i : Nat} {x : α} {f g : α → β}
    (h : ∀ {j y}, l[j]? = some y → j ≠ i → f y = g y) : (l.set i x).map f = (l.map g).set i (f x) := by
  apply List.ext_getElem?
  intro j
  by_cases hij : i = j
  · subst hij
    rw [List.getElem?_map, List.getElem?_set_self', List.getElem?_set_self', List.getElem?_map]
    cases l[i]? <;> rfl
  · rw [List.getElem?_map, List.getElem?_set_ne hij, List.getElem?_set_ne hij, List.getElem?_map]
    cases hy : l[j]? with
    | none => rfl
    | some y => exact congrArg some (h hy (Ne.symm hij))

theorem map_set_same {α β : Type} {l : List α} {i : Nat} {x y : α} {f : α → β} (hx : l[i]? = some x) (hf : f y = f x) :
    (l.set i y).map f = l.map f := by
  obtain ⟨hi, rfl⟩ := List.getElem?_eq_some_iff.mp hx
  rw [List.map_set, hf, ← List.getElem_map f (h := by simpa using hi), List.set_getElem_self]

theorem set_same {α : Type} {l : List α} {i : Nat} {x : α} (hx : l[i]? = some x) : l.set i x = l := by
  obtain ⟨hi, rfl⟩ := List.getElem?_eq_some_iff.mp hx
  exact List.set_getElem_self hi

theorem of_concat {α : Type} {l : List α} {j : Nat} {x y : α} (h : (l ++ [x])[j]? = some y) :
    j = l.length ∧ y = x ∨ l[j]? = some y := by
  rw [List.getElem?_append] at h
  split at h
  · exact .inr h
  · rename_i hj
    obtain ⟨he, rfl⟩ := List.getElem?_eq_some_iff.mp h
    rw [List.length_singleton] at he
    exact .inl ⟨by omega, List.getElem_singleton _⟩

namespace Lists

/-- What the elements of a list say. -/
def texts (ls : Lists) (k : Nat) : List Utf8 := (ls.getD k []).map LazyString.utf8

theorem map_elements (ls : Lists) (ref : ListRef) : (ls.elements ref).map LazyString.utf8 = ls.texts ref.index := rfl

theorem elements_set {ls : Lists} {ref : ListRef} (h : ref.index < ls.length) (l : List LazyString) :
    elements (ls.set ref.index l) ref = l := by
  simp [elements, List.getD, h]

theorem texts_set_self {ls : Lists} {k : Nat} (h : k < ls.length) (l : List LazyString) :
    texts (ls.set k l) k = l.map LazyString.utf8 := by
  simp [texts, List.getD, h]

theorem texts_set_ne (ls : Lists) {k j : Nat} (h : k ≠ j) (l : List LazyString) :
    texts (ls.set j l) k = ls.texts k := by
  simp [texts, List.getD, List.getElem?_set_ne (Ne.symm h)]

/-- Elements that say the same. -/
theorem texts_cache (ls : Lists) {j : Nat} {l : List LazyString} (h : l.map LazyString.utf8 = ls.texts j) (k : Nat) :
    texts (ls.set j l) k = ls.texts k := by
  by_cases hk : k = j
  · subst hk
    by_cases hl : k < ls.length
    · rw [texts_set_self hl, h]
    · rw [List.set_eq_of_length_le (by omega)]
  · exact texts_set_ne ls hk l

theorem texts_append {ls : Lists} {k : Nat} (h : k < ls.length) (l : List LazyString) :
    texts (ls ++ [l]) k = ls.texts k := by
  simp [texts, List.getD, List.getElem?_append_left h]

theorem elements_append_new (ls : Lists) (l : List LazyString) (v : Bool) :
    elements (ls ++ [l]) ⟨ls.length, v⟩ = l := by
  simp [elements]

end Lists

namespace SubscribeReq

variable {S : Type}

def Object.value (ls : Lists) (m : Object S) : Value S := (m.load ls).value

namespace Builder

def value (ls : Lists) (b : Builder S) : Value S :=
  ⟨b.subReqId_, b.userName_.utf8, b.productName_.utf8, ls.texts b.address_.index, b.unknownFields⟩

/-! ## One builder -/

/-- A builder's list exists, and is one it may change when its bit says so. -/
structure Good (ls : Lists) (b : Builder S) : Prop where
  index : b.address_.index < ls.length
  owned : b.addressIsMutable = true → b.address_.isView = false ∧ b.address_.index ≠ 0

/-- What a call does to the lists: it changes none but the builder's own, and leaves the
    builder with its list, a new one, or one of `shared` that it may not change. -/
structure Moves (shared : Nat → Prop) (ls : Lists) (b : Builder S) (ls' : Lists) (b' : Builder S) : Prop where
  grows : ls.length ≤ ls'.length
  frame : ∀ k < ls.length, (b.addressIsMutable = true → k ≠ b.address_.index) → ls'.texts k = ls.texts k
  good : Good ls' b'
  target : b'.address_.index = b.address_.index ∨ ls.length ≤ b'.address_.index ∨
    b'.addressIsMutable = false ∧ shared b'.address_.index
  owned : b'.addressIsMutable = true → b'.address_.index = b.address_.index ∧ b.addressIsMutable = true ∨
    ls.length ≤ b'.address_.index

variable {shared : Nat → Prop} {ls ls1 ls2 : Lists} {b b1 b2 : Builder S}

theorem Moves.trans (h1 : Moves shared ls b ls1 b1) (h2 : Moves shared ls1 b1 ls2 b2) : Moves shared ls b ls2 b2 where
  grows := Nat.le_trans h1.grows h2.grows
  frame k hk hb := by
    have hg := h1.grows
    rw [h2.frame k (by omega), h1.frame k hk hb]
    intro hm
    rcases h1.owned hm with ⟨he, hmb⟩ | hnew
    · rw [he]
      exact hb hmb
    · omega
  good := h2.good
  target := by
    have hg := h1.grows
    rcases h2.target with he | hnew | hs
    · rcases h1.target with he1 | hnew1 | ⟨hm1, hs1⟩
      · exact .inl (he.trans he1)
      · exact .inr (.inl (by omega))
      · refine .inr (.inr ⟨?_, he ▸ hs1⟩)
        cases hm : b2.addressIsMutable with
        | false => rfl
        | true =>
          have hi := h1.good.index
          rcases h2.owned hm with ⟨-, hm1'⟩ | hnew
          · rw [hm1] at hm1'
            cases hm1'
          · omega
    · exact .inr (.inl (by omega))
    · exact .inr (.inr hs)
  owned hm := by
    have hg := h1.grows
    rcases h2.owned hm with ⟨he, hm1⟩ | hnew
    · rcases h1.owned hm1 with ⟨he1, hmb⟩ | hnew1
      · exact .inl ⟨he.trans he1, hmb⟩
      · exact .inr (by omega)
    · exact .inr (by omega)

/-- A call that changes none of the elements' texts and not the builder's list. -/
theorem Moves.cached (hg : Good ls b) (hl : ls1.length = ls.length) (ht : ∀ k, ls1.texts k = ls.texts k)
    (ha : b1.address_ = b.address_) (hm : b1.addressIsMutable = b.addressIsMutable) : Moves shared ls b ls1 b1 where
  grows := Nat.le_of_eq hl.symm
  frame k _ _ := ht k
  good := ⟨by rw [ha, hl]; exact hg.index, fun h => by rw [ha]; exact hg.owned (hm ▸ h)⟩
  target := .inl (by rw [ha])
  owned h := .inl ⟨by rw [ha], hm ▸ h⟩

theorem Moves.refl (hg : Good ls b) : Moves shared ls b ls b := .cached hg rfl (fun _ => rfl) rfl rfl

/-- Behind `ensureAddressIsMutable()` the builder has its list to itself. -/
theorem ensure_moves (shared : Nat → Prop) (hg : Good ls b) :
    ∃ ls1 b1, ensureAddressIsMutable ls b = (ls1, b1) ∧ Moves shared ls b ls1 b1 ∧ b1.addressIsMutable = true ∧
      ls1.elements b1.address_ = ls.elements b.address_ ∧
        b1 = { b with address_ := b1.address_, addressIsMutable := true } := by
  cases hm : b.addressIsMutable with
  | true =>
    refine ⟨ls, b, by simp [ensureAddressIsMutable, hm], .refl hg, hm, rfl, ?_⟩
    rw [← hm]
  | false =>
    have hi := hg.index
    refine ⟨ls ++ [ls.elements b.address_], { b with address_ := ⟨ls.length, false⟩, addressIsMutable := true },
      by simp [ensureAddressIsMutable, hm], ?_, rfl, Lists.elements_append_new ls _ _, rfl⟩
    exact {
      grows := by simp
      frame := fun k hk _ => Lists.texts_append hk _
      good := ⟨by simp, fun _ => ⟨rfl, by dsimp only; omega⟩⟩
      target := .inr (.inl (Nat.le_refl _))
      owned := fun _ => .inr (Nat.le_refl _) }

/-- A change of the addresses, or what it throws. -/
def changed (v : Value S) : Except Thrown (List Utf8) → Value S × Said
  | .ok l => ({ v with address := l }, .done)
  | .error e => (v, .thrown e)

/-- The builder's list is changed as what it says is, and no view is. -/
theorem changeAddress_spec (shared : Nat → Prop) (hg : Good ls b)
    {f : List LazyString → Except Thrown (List LazyString)} {g : List Utf8 → Except Thrown (List Utf8)}
    (hf : ∀ l, (f l).map (List.map LazyString.utf8) = g (l.map LazyString.utf8)) :
    ∃ ls' b' r, changeAddress ls b f = (ls', b', r) ∧ Moves shared ls b ls' b' ∧
      (b'.value ls', r.said) = changed (b.value ls) (g (b.value ls).address) := by
  obtain ⟨ls1, b1, he, hmv, hm, hel, hb1⟩ := ensure_moves shared hg
  obtain ⟨hview, hne⟩ := hmv.good.owned hm
  have hv : b1.value ls1 = b.value ls := by
    have ht : ls1.texts b1.address_.index = ls.texts b.address_.index := by
      rw [← Lists.map_elements, hel, Lists.map_elements]
    rw [value, ht, hb1]
    rfl
  have hfl := hf (ls.elements b.address_)
  rw [Lists.map_elements] at hfl
  rw [show (b.value ls).address = ls.texts b.address_.index from rfl, ← hfl]
  cases hfe : f (ls.elements b.address_) with
  | error e =>
    refine ⟨ls1, b1, .thrown e, by simp [changeAddress, he, hview, hel, hfe], hmv, ?_⟩
    rw [hv]
    rfl
  | ok l =>
    have hset : ∀ k, k ≠ b1.address_.index → Lists.texts (ls1.set b1.address_.index l) k = ls1.texts k :=
      fun k hk => Lists.texts_set_ne ls1 hk l
    have hst : Moves shared ls1 b1 (ls1.set b1.address_.index l) b1 := {
      grows := by simp
      frame := fun k _ hk => hset k (hk hm)
      good := ⟨by simpa using hmv.good.index, hmv.good.owned⟩
      target := .inl rfl
      owned := fun _ => .inl ⟨rfl, hm⟩ }
    refine ⟨ls1.set b1.address_.index l, b1, .done, by simp [changeAddress, he, hview, hel, hfe], hmv.trans hst, ?_⟩
    rw [← hv, value, Lists.texts_set_self hmv.good.index]
    rfl

theorem add_spec (shared : Nat → Prop) (hg : Good ls b) (values : List LazyString) :
    ∃ ls' b', addAllAddress ls b values = (ls', b', .done) ∧ Moves shared ls b ls' b' ∧
      b'.value ls' = { b.value ls with address := (b.value ls).address ++ values.map LazyString.utf8 } := by
  obtain ⟨ls', b', r, he, hmv, hv⟩ := changeAddress_spec shared hg (f := fun l => .ok (l ++ values))
    (g := fun l => .ok (l ++ values.map LazyString.utf8)) fun l => congrArg Except.ok List.map_append
  cases r with
  | done => exact ⟨ls', b', he, hmv, congrArg Prod.fst hv⟩
  | _ => cases congrArg Prod.snd hv

/-- An element in its other form changes nothing that is said. -/
theorem cached_spec (hg : Good ls b) {index : Nat} {x y : LazyString} (hx : (ls.elements b.address_)[index]? = some x)
    (hy : y.utf8 = x.utf8) :
    Moves shared ls b (ls.set b.address_.index ((ls.elements b.address_).set index y)) b ∧
      b.value (ls.set b.address_.index ((ls.elements b.address_).set index y)) = b.value ls := by
  have ht : ∀ k, Lists.texts (ls.set b.address_.index ((ls.elements b.address_).set index y)) k = ls.texts k :=
    Lists.texts_cache ls (map_set_same hx hy)
  exact ⟨.cached hg (by simp) ht rfl rfl, by rw [value, ht]; rfl⟩

/-- What is at an index says what is said there. -/
theorem address_get (ls : Lists) (b : Builder S) (index : Nat) :
    (b.value ls).address[index]? = (ls.elements b.address_)[index]?.map LazyString.utf8 := List.getElem?_map

/-- A builder with no list of its own. -/
theorem Moves.cleared (hg : Good ls b) (ha : b1.address_ = EMPTY) (hm : b1.addressIsMutable = false) :
    Moves (· = 0) ls b ls b1 where
  grows := Nat.le_refl _
  frame _ _ _ := rfl
  good := ⟨by rw [ha]; exact Nat.lt_of_le_of_lt (Nat.zero_le _) hg.index, fun h => by rw [hm] at h; cases h⟩
  target := .inr (.inr ⟨hm, by rw [ha]; rfl⟩)
  owned h := by rw [hm] at h; cases h

variable [UnknownFieldSet S]

/-- A call on a builder does to it what it does to what it says. -/
theorem call_spec (hg : Good ls b) (hz : ls.texts 0 = []) (op : BuilderOp) :
    ∃ ls' b' r, b.call ls op = (ls', b', r) ∧ Moves (· = 0) ls b ls' b' ∧
      (b'.value ls', r.said) = (b.value ls).call op := by
  have hsame : ∀ {b' : Builder S}, b'.address_ = b.address_ → b'.addressIsMutable = b.addressIsMutable →
      Moves (· = 0) ls b ls b' := fun ha hm => .cached hg rfl (fun _ => rfl) ha hm
  cases op with
  | setSubReqId value => exact ⟨_, _, _, rfl, hsame rfl rfl, rfl⟩
  | clearSubReqId => exact ⟨_, _, _, rfl, hsame rfl rfl, rfl⟩
  | getUserName => exact ⟨_, _, _, rfl, hsame rfl rfl, by simp [value, Value.call, Result.said]⟩
  | getUserNameBytes => exact ⟨_, _, _, rfl, hsame rfl rfl, by simp [value, Value.call, Result.said]⟩
  | setUserName value => exact ⟨_, _, _, rfl, hsame rfl rfl, rfl⟩
  | setUserNameBytes value =>
    by_cases h : ValidUtf8 value.1
    · exact ⟨_, _, _, dif_pos h, hsame rfl rfl, by rw [Value.call, Value.setBytes, dif_pos h]; rfl⟩
    · exact ⟨_, _, _, dif_neg h, hsame rfl rfl, by rw [Value.call, Value.setBytes, dif_neg h]; rfl⟩
  | clearUserName => exact ⟨_, _, _, rfl, hsame rfl rfl, rfl⟩
  | getProductName => exact ⟨_, _, _, rfl, hsame rfl rfl, by simp [value, Value.call, Result.said]⟩
  | getProductNameBytes => exact ⟨_, _, _, rfl, hsame rfl rfl, by simp [value, Value.call, Result.said]⟩
  | setProductName value => exact ⟨_, _, _, rfl, hsame rfl rfl, rfl⟩
  | setProductNameBytes value =>
    by_cases h : ValidUtf8 value.1
    · exact ⟨_, _, _, dif_pos h, hsame rfl rfl, by rw [Value.call, Value.setBytes, dif_pos h]; rfl⟩
    · exact ⟨_, _, _, dif_neg h, hsame rfl rfl, by rw [Value.call, Value.setBytes, dif_neg h]; rfl⟩
  | clearProductName => exact ⟨_, _, _, rfl, hsame rfl rfl, rfl⟩
  | getAddress index =>
    have hget := address_get ls b index
    cases hx : (ls.elements b.address_)[index]? with
    | none =>
      rw [hx] at hget
      exact ⟨ls, b, .thrown .indexOutOfBounds, by simp [call, getAddress, hx], hsame rfl rfl,
        by simp [Value.call, hget, Result.said]⟩
    | some x =>
      rw [hx] at hget
      obtain ⟨hmv, hv⟩ := cached_spec hg hx x.utf8_get
      exact ⟨_, b, .string x.get.1, by simp [call, getAddress, hx], hmv,
        by rw [hv]; simp [Value.call, hget, Result.said]⟩
  | getAddressBytes index =>
    have hget := address_get ls b index
    cases hx : (ls.elements b.address_)[index]? with
    | none =>
      rw [hx] at hget
      exact ⟨ls, b, .thrown .indexOutOfBounds, by simp [call, getAddressBytes, hx], hsame rfl rfl,
        by simp [Value.call, hget, Result.said]⟩
    | some x =>
      rw [hx] at hget
      obtain ⟨hmv, hv⟩ := cached_spec hg hx x.utf8_getByteString
      exact ⟨_, b, .byteString x.getByteString.1, by simp [call, getAddressBytes, hx], hmv,
        by rw [hv]; simp [Value.call, hget, Result.said]⟩
  | setAddress index value =>
    obtain ⟨ls', b', r, he, hmv, hv⟩ := changeAddress_spec (· = 0) hg (f := fun l =>
      if index < l.length then .ok (l.set index (.string value.1)) else .error .indexOutOfBounds) (g := fun l =>
      if index < l.length then .ok (l.set index (copyFromUtf8 value.1)) else .error .indexOutOfBounds) (by
        intro l
        rw [List.length_map]
        split
        · exact congrArg Except.ok List.map_set
        · rfl)
    refine ⟨ls', b', r, he, hmv, ?_⟩
    rw [hv, Value.call]
    split <;> rfl
  | addAddress value =>
    obtain ⟨ls', b', he, hmv, hv⟩ := add_spec (· = 0) hg [.string value.1]
    exact ⟨ls', b', .done, he, hmv, by rw [hv]; rfl⟩
  | addAllAddress values =>
    obtain ⟨ls', b', he, hmv, hv⟩ := add_spec (· = 0) hg (values.map fun s => .string s.1)
    refine ⟨ls', b', .done, he, hmv, ?_⟩
    rw [hv, List.map_map]
    rfl
  | addAddressBytes value =>
    by_cases h : ValidUtf8 value.1
    · obtain ⟨ls', b', he, hmv, hv⟩ := add_spec (· = 0) hg [.byteString ⟨value.1, h⟩]
      refine ⟨ls', b', .done, (dif_pos h).trans he, hmv, ?_⟩
      rw [hv, Value.call, Value.setBytes, dif_pos h]
      rfl
    · exact ⟨_, _, _, dif_neg h, hsame rfl rfl, by rw [Value.call, Value.setBytes, dif_neg h]; rfl⟩
  | clearAddress => exact ⟨_, _, _, rfl, .cleared hg rfl rfl, by rw [value, show EMPTY.index = 0 from rfl, hz]; rfl⟩
  | clear => exact ⟨_, _, _, rfl, .cleared hg rfl rfl, by rw [value, show EMPTY.index = 0 from rfl, hz]; rfl⟩

omit [UnknownFieldSet S] in
/-- What is built has the builder's list, which the builder may no longer change. -/
theorem buildPartial_spec (hg : Good ls b) :
    ∃ b' m, b.buildPartial = (b', m) ∧ Moves (fun _ => False) ls b ls b' ∧ b'.addressIsMutable = false ∧
      b'.value ls = b.value ls ∧ m.address_.index = b'.address_.index ∧ m.value ls = b.value ls ∧
        m.memoizedSize = -1 := by
  cases hm : b.addressIsMutable with
  | true =>
    refine ⟨{ b with address_ := b.address_.getUnmodifiableView, addressIsMutable := false },
      ⟨b.subReqId_, b.userName_, b.productName_, b.address_.getUnmodifiableView, b.unknownFields, -1⟩,
      by simp [buildPartial, hm], ?_, rfl, rfl, rfl, rfl, rfl⟩
    exact {
      grows := Nat.le_refl _
      frame := fun _ _ _ => rfl
      good := ⟨hg.index, fun h => by cases h⟩
      target := .inl rfl
      owned := fun h => by cases h }
  | false =>
    exact ⟨b, ⟨b.subReqId_, b.userName_, b.productName_, b.address_, b.unknownFields, -1⟩, by simp [buildPartial, hm],
      .refl hg, hm, rfl, rfl, rfl, rfl⟩

/-! ### Merging -/

omit [UnknownFieldSet S] in
theorem mergeSingular_same (b : Builder S) (m : Object S) :
    (b.mergeSingular m).1.address_ = b.address_ ∧ (b.mergeSingular m).1.addressIsMutable = b.addressIsMutable ∧
      (b.mergeSingular m).2.address_ = m.address_ ∧ (b.mergeSingular m).2.memoizedSize = m.memoizedSize ∧
      ∀ ls, (b.mergeSingular m).2.value ls = m.value ls := by
  refine ⟨?_, ?_, rfl, rfl, fun ls => by simp [mergeSingular, Object.value, Object.load, SubscribeReq.value]⟩
  · simp only [mergeSingular]
    split <;> split <;> split <;> rfl
  · simp only [mergeSingular]
    split <;> split <;> split <;> rfl

theorem mergeSingular_value (ls : Lists) (b : Builder S) (m : Object S) :
    (b.mergeSingular m).1.value ls = { (b.value ls).mergeFrom (m.value ls) with
      address := (b.value ls).address, unknownFields := (b.value ls).unknownFields } := by
  have hu := m.userName_.isEmpty_get
  have hp := m.productName_.isEmpty_get
  have hmu : (m.value ls).userName = m.userName_.utf8 := rfl
  have hmp : (m.value ls).productName = m.productName_.utf8 := rfl
  simp only [mergeSingular, Value.mergeFrom, hu, hp, hmu, hmp]
  cases m.userName_.utf8.1.isEmpty <;> cases m.productName_.utf8.1.isEmpty <;>
    by_cases hi : m.subReqId_ = 0 <;> simp [hi, value, Object.value, Object.load, SubscribeReq.value]

omit [UnknownFieldSet S] in
/-- Of two lists one of which is empty the other is shared. -/
theorem mergeAddress_spec (hg : Good ls b) {m : Object S} (hm : m.address_.index < ls.length) :
    ∃ ls' b', b.mergeAddress ls m = (ls', b', .done) ∧ Moves (· = m.address_.index) ls b ls' b' ∧
      b'.value ls' = { b.value ls with address := (b.value ls).address ++ (m.value ls).address } := by
  have hma : (m.value ls).address = (ls.elements m.address_).map LazyString.utf8 := rfl
  have hba : (b.value ls).address = (ls.elements b.address_).map LazyString.utf8 := rfl
  cases ho : (ls.elements m.address_).isEmpty with
  | true =>
    refine ⟨ls, b, by simp [mergeAddress, ho], .refl hg, ?_⟩
    rw [hma, List.isEmpty_iff.mp ho, List.map_nil, List.append_nil]
  | false =>
    cases hb : (ls.elements b.address_).isEmpty with
    | true =>
      refine ⟨ls, { b with address_ := m.address_, addressIsMutable := false }, by simp [mergeAddress, ho, hb], ?_, ?_⟩
      · exact {
          grows := Nat.le_refl _
          frame := fun _ _ _ => rfl
          good := ⟨hm, fun h => by cases h⟩
          target := .inr (.inr ⟨rfl, rfl⟩)
          owned := fun h => by cases h }
      · rw [hba, List.isEmpty_iff.mp hb, List.map_nil, List.nil_append]
        rfl
    | false =>
      obtain ⟨ls', b', he, hmv, hv⟩ := add_spec (· = m.address_.index) hg (ls.elements m.address_)
      exact ⟨ls', b', by simp [mergeAddress, ho, hb, he], hmv, hv⟩

theorem mergeFrom_spec (hg : Good ls b) {m : Object S} (hm : m.address_.index < ls.length) :
    ∃ ls' b' m', b.mergeFrom ls m = (ls', b', m', .done) ∧ Moves (· = m.address_.index) ls b ls' b' ∧
      b'.value ls' = (b.value ls).mergeFrom (m.value ls) ∧ m'.address_ = m.address_ ∧ m'.memoizedSize = m.memoizedSize ∧
      ∀ ls, m'.value ls = m.value ls := by
  obtain ⟨ha, hmut, hma, hms, hmv⟩ := mergeSingular_same b m
  have hv1 := mergeSingular_value ls b m
  have h1 : Moves (· = m.address_.index) ls b ls (b.mergeSingular m).1 := .cached hg rfl (fun _ => rfl) ha hmut
  obtain ⟨ls', b2, he, h2, hv2⟩ := mergeAddress_spec h1.good (m := (b.mergeSingular m).2) (by rw [hma]; exact hm)
  rw [hma] at h2
  have h3 : Moves (· = m.address_.index) ls' b2 ls'
      { b2 with unknownFields := UnknownFieldSet.mergeFrom b2.unknownFields (b.mergeSingular m).2.unknownFields } :=
    .cached h2.good rfl (fun _ => rfl) rfl rfl
  refine ⟨ls', _, (b.mergeSingular m).2, by simp only [mergeFrom, he], (h1.trans h2).trans h3, ?_, hma, hms, hmv⟩
  rw [hv1, hmv] at hv2
  have hbu : b2.unknownFields = (b.value ls).unknownFields := congrArg Value.unknownFields hv2
  have hmu : (b.mergeSingular m).2.unknownFields = (m.value ls).unknownFields := congrArg Value.unknownFields (hmv ls)
  calc _ = { b2.value ls' with
        unknownFields := UnknownFieldSet.mergeFrom b2.unknownFields (b.mergeSingular m).2.unknownFields } := rfl
    _ = (b.value ls).mergeFrom (m.value ls) := by
      rw [hv2, hbu, hmu]
      rfl

end Builder

end SubscribeReq

end NettyStudy.Protobuf
