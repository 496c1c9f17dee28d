/-
  NettyStudy.Protobuf.BuilderWorld — any number of builders and messages (see
  `NettyStudy.Protobuf.Builder`) and the invariant that keeps them apart: a list that a
  builder may change is no message's, no other builder's and not the empty one.

  Proved: what a call on one builder, a new builder, a new message and a message's own
  caching do to all of them, `Inv.moved`, `Inv.addBuilder`, `Inv.addMessage` and
  `Inv.setMessage`.
-/

import NettyStudy.Protobuf.BuilderProofs

namespace NettyStudy.Protobuf

open NettyStudy.Text

namespace SubscribeReq

variable {S : Type}

namespace World

variable [UnknownFieldSet S]

omit [UnknownFieldSet S] in
/-- What the messages and builders say. -/
def abs (w : World S) : Spec S := ⟨w.messages.map (·.value w.lists), w.builders.map (·.value w.lists)⟩

/-- A list that a builder may change is no message's, no other builder's and not the empty one. -/
structure Inv (w : World S) : Prop where
  nonempty : 0 < w.lists.length
  zero : w.lists.texts 0 = []
  messages : ∀ m ∈ w.messages, m.address_.index < w.lists.length
  builders : ∀ b ∈ w.builders, Builder.Good w.lists b
  apart : ∀ b ∈ w.builders, b.addressIsMutable = true → ∀ m ∈ w.messages, m.address_.index ≠ b.address_.index
  alone : ∀ {i j : Nat} {b b' : Builder S}, w.builders[i]? = some b → b.addressIsMutable = true →
    w.builders[j]? = some b' → j ≠ i → b'.address_.index ≠ b.address_.index
  sized : ∀ m ∈ w.messages, m.memoizedSize ≠ -1 → m.memoizedSize = .ofNat (serialize (m.value w.lists).fields).length

omit [UnknownFieldSet S] in
theorem value_congr {ls ls' : Lists} {m : Object S} (h : ls'.texts m.address_.index = ls.texts m.address_.index) :
    m.value ls' = m.value ls := by
  have ht : (ls'.elements m.address_).map LazyString.utf8 = (ls.elements m.address_).map LazyString.utf8 := h
  simp only [Object.value, Object.load, SubscribeReq.value, ht]

/-- A call on one builder is one on what it says alone. -/
theorem Inv.moved {w : World S} (hw : w.Inv) {i : Nat} {b : Builder S} (hb : w.builders[i]? = some b)
    {shared : Nat → Prop} {ls' : Lists} {b' : Builder S} (h : Builder.Moves shared w.lists b ls' b')
    (hs : ∀ k, shared k → k = 0 ∨ ∃ m ∈ w.messages, m.address_.index = k) :
    Inv { w with lists := ls', builders := w.builders.set i b' } ∧
      abs { w with lists := ls', builders := w.builders.set i b' } =
        ⟨w.abs.messages, w.abs.builders.set i (b'.value ls')⟩ := by
  have hmem : b ∈ w.builders := List.mem_of_getElem? hb
  have hgrows := h.grows
  have hm : ∀ m ∈ w.messages, m.value ls' = m.value w.lists := fun m hm =>
    value_congr (h.frame _ (hw.messages m hm) fun hmut => hw.apart b hmem hmut m hm)
  have ho : ∀ {j : Nat} {b2 : Builder S}, w.builders[j]? = some b2 → j ≠ i → b2.value ls' = b2.value w.lists := by
    intro j b2 hj hji
    have ht := h.frame _ (hw.builders _ (List.mem_of_getElem? hj)).index fun hmut => hw.alone hb hmut hj hji
    rw [Builder.value, ht]
    rfl
  refine ⟨?_, ?_⟩
  · exact {
      nonempty := by dsimp only; have := hw.nonempty; omega
      zero := by
        rw [h.frame 0 hw.nonempty fun hmut => Ne.symm ((hw.builders b hmem).owned hmut).2]
        exact hw.zero
      messages := fun m hm => Nat.lt_of_lt_of_le (hw.messages m hm) hgrows
      builders := by
        intro b2 hb2
        obtain ⟨j, hj⟩ := List.mem_iff_getElem?.mp hb2
        rcases of_set hj with ⟨-, rfl⟩ | ⟨-, hj⟩
        · exact h.good
        · have hg := hw.builders b2 (List.mem_of_getElem? hj)
          exact ⟨Nat.lt_of_lt_of_le hg.index hgrows, hg.owned⟩
      apart := by
        intro b2 hb2 hmut m hm
        obtain ⟨j, hj⟩ := List.mem_iff_getElem?.mp hb2
        rcases of_set hj with ⟨-, rfl⟩ | ⟨-, hj⟩
        · rcases h.owned hmut with ⟨he, hmut⟩ | hnew
          · rw [he]
            exact hw.apart b hmem hmut m hm
          · have := hw.messages m hm
            omega
        · exact hw.apart b2 (List.mem_of_getElem? hj) hmut m hm
      alone := by
        intro j k b2 b3 hj' hmut hk' hkj
        rcases of_set hj' with ⟨rfl, rfl⟩ | ⟨hji, hj⟩
        · rcases of_set hk' with ⟨rfl, -⟩ | ⟨hki, hk⟩
          · exact absurd rfl hkj
          · rcases h.owned hmut with ⟨he, hmut⟩ | hnew
            · rw [he]
              exact hw.alone hb hmut hk hki
            · have := (hw.builders b3 (List.mem_of_getElem? hk)).index
              omega
        · rcases of_set hk' with ⟨rfl, rfl⟩ | ⟨-, hk⟩
          · have hg := hw.builders b2 (List.mem_of_getElem? hj)
            rcases h.target with he | hnew | ⟨-, hsh⟩
            · rw [he]
              exact hw.alone hj hmut hb hkj
            · have := hg.index
              omega
            · rcases hs _ hsh with hz | ⟨m, hm, he⟩
              · rw [hz]
                exact Ne.symm (hg.owned hmut).2
              · rw [← he]
                exact hw.apart b2 (List.mem_of_getElem? hj) hmut m hm
          · exact hw.alone hj hmut hk hkj
      sized := fun m hmem' hsize => by rw [hm m hmem']; exact hw.sized m hmem' hsize }
  · rw [abs, abs, Spec.mk.injEq]
    exact ⟨List.map_congr_left hm, map_set_congr ho⟩

/-- Lists whose elements say what they said, and new ones behind them. -/
theorem Inv.grown {w : World S} (hw : w.Inv) (ls' : Lists) (hl : w.lists.length ≤ ls'.length)
    (ht : ∀ k < w.lists.length, ls'.texts k = w.lists.texts k) :
    Inv { w with lists := ls' } ∧ abs { w with lists := ls' } = w.abs := by
  have hm : ∀ m ∈ w.messages, m.value ls' = m.value w.lists := fun m hm => value_congr (ht _ (hw.messages m hm))
  have hb : ∀ b ∈ w.builders, b.value ls' = b.value w.lists := by
    intro b hb
    rw [Builder.value, ht _ (hw.builders b hb).index]
    rfl
  refine ⟨?_, ?_⟩
  · exact {
      nonempty := Nat.lt_of_lt_of_le hw.nonempty hl
      zero := (ht 0 hw.nonempty).trans hw.zero
      messages := fun m hm => Nat.lt_of_lt_of_le (hw.messages m hm) hl
      builders := fun b hb => ⟨Nat.lt_of_lt_of_le (hw.builders b hb).index hl, (hw.builders b hb).owned⟩
      apart := hw.apart
      alone := hw.alone
      sized := fun m hmem hs => by rw [hm m hmem]; exact hw.sized m hmem hs }
  · rw [abs, abs, Spec.mk.injEq]
    exact ⟨List.map_congr_left hm, List.map_congr_left hb⟩

/-- A message of a list that no builder may change. -/
theorem Inv.addMessage {w : World S} (hw : w.Inv) {m : Object S} (hi : m.address_.index < w.lists.length)
    (ha : ∀ b ∈ w.builders, b.addressIsMutable = true → m.address_.index ≠ b.address_.index)
    (hs : m.memoizedSize = -1) :
    Inv { w with messages := w.messages ++ [m] } ∧
      abs { w with messages := w.messages ++ [m] } =
        { w.abs with messages := w.abs.messages ++ [m.value w.lists] } := by
  refine ⟨?_, by simp [abs]⟩
  exact {
    nonempty := hw.nonempty
    zero := hw.zero
    messages := by
      intro m' hm
      rcases List.mem_append.mp hm with hm | hm
      · exact hw.messages m' hm
      · rw [List.mem_singleton.mp hm]
        exact hi
    builders := hw.builders
    apart := by
      intro b hb hmut m' hm
      rcases List.mem_append.mp hm with hm | hm
      · exact hw.apart b hb hmut m' hm
      · rw [List.mem_singleton.mp hm]
        exact ha b hb hmut
    alone := hw.alone
    sized := by
      intro m' hm hsize
      rcases List.mem_append.mp hm with hm | hm
      · exact hw.sized m' hm hsize
      · rw [List.mem_singleton.mp hm] at hsize
        exact absurd hs hsize }

/-- A message that says what it said. -/
theorem Inv.setMessage {w : World S} (hw : w.Inv) (m' : Object S) {j : Nat} {m : Object S}
    (hj : w.messages[j]? = some m)
    (ha : m'.address_ = m.address_) (hv : m'.value w.lists = m.value w.lists)
    (hs : m'.memoizedSize ≠ -1 → m'.memoizedSize = .ofNat (serialize (m.value w.lists).fields).length) :
    Inv { w with messages := w.messages.set j m' } ∧ abs { w with messages := w.messages.set j m' } = w.abs := by
  have hmem : ∀ m2 ∈ w.messages.set j m', m2 = m' ∨ m2 ∈ w.messages := by
    intro m2 hm2
    obtain ⟨k, hk⟩ := List.mem_iff_getElem?.mp hm2
    rcases of_set hk with ⟨-, rfl⟩ | ⟨-, hk⟩
    · exact .inl rfl
    · exact .inr (List.mem_of_getElem? hk)
  have hold := List.mem_of_getElem? hj
  refine ⟨?_, ?_⟩
  · exact {
      nonempty := hw.nonempty
      zero := hw.zero
      messages := by
        intro m2 hm2
        rcases hmem m2 hm2 with rfl | hm2
        · rw [ha]
          exact hw.messages m hold
        · exact hw.messages m2 hm2
      builders := hw.builders
      apart := by
        intro b hb hmut m2 hm2
        rcases hmem m2 hm2 with rfl | hm2
        · rw [ha]
          exact hw.apart b hb hmut m hold
        · exact hw.apart b hb hmut m2 hm2
      alone := hw.alone
      sized := by
        intro m2 hm2 hsize
        rcases hmem m2 hm2 with rfl | hm2
        · rw [hv]
          exact hs hsize
        · exact hw.sized m2 hm2 hsize }
  · rw [abs, abs, Spec.mk.injEq]
    exact ⟨map_set_same hj hv, rfl⟩

theorem Inv.value_new {w : World S} (hw : w.Inv) : (Builder.new : Builder S).value w.lists = .empty := by
  rw [Builder.value, show (Builder.new : Builder S).address_.index = 0 from rfl, hw.zero]
  rfl

/-- A new builder. -/
theorem Inv.addBuilder {w : World S} (hw : w.Inv) :
    Inv { w with builders := w.builders ++ [.new] } ∧
      abs { w with builders := w.builders ++ [.new] } = { w.abs with builders := w.abs.builders ++ [.empty] } := by
  have hv := hw.value_new
  have hmem : ∀ b ∈ w.builders ++ [.new], b.addressIsMutable = true → b ∈ w.builders := by
    intro b hb hmut
    rcases List.mem_append.mp hb with hb | hb
    · exact hb
    · rw [List.mem_singleton.mp hb] at hmut
      cases hmut
  refine ⟨?_, by simp [abs, hv]⟩
  exact {
    nonempty := hw.nonempty
    zero := hw.zero
    messages := hw.messages
    builders := by
      intro b hb
      rcases List.mem_append.mp hb with hb | hb
      · exact hw.builders b hb
      · rw [List.mem_singleton.mp hb]
        exact ⟨hw.nonempty, fun h => by cases h⟩
    apart := fun b hb hmut => hw.apart b (hmem b hb hmut) hmut
    alone := by
      intro i j b b' hi hmut hj hji
      rcases of_concat hi with ⟨-, rfl⟩ | hi
      · cases hmut
      · rcases of_concat hj with ⟨-, rfl⟩ | hj
        · exact Ne.symm ((hw.builders b (List.mem_of_getElem? hi)).owned hmut).2
        · exact hw.alone hi hmut hj hji
    sized := hw.sized }

end World

end SubscribeReq

end NettyStudy.Protobuf
