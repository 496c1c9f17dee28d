/-
  NettyStudy.Text.Code — variable-length codes read from the front, as a charset
  decoder reads them: a symbol is written as a non-empty word, and a non-empty input
  starts with either one symbol's word or one malformed piece.

  Proved, for every code:
  - `parse_encode_append`: a written text reads back symbol by symbol, whatever follows.
  - `encode_of_parse`: only a written text reads as all symbols.
  - `split_flatMap` / `split_pieces`: a cut of words written one after the other falls
    between two of them or inside one.
  - `read_eq_of_append` / `read_eq_of_cut`: reading with a substitute for malformed
    pieces, a text read together with what follows it is never the text alone, and a
    text cut short reads as itself only where the cut symbol is the substitute.
-/

import Mathlib.Data.List.Basic
import Mathlib.Data.Option.Basic

namespace NettyStudy.Text

/-- A cut of words written one after the other falls between two of them or inside one. -/
theorem split_flatMap {α β : Type} (f : α → List β) : ∀ (xs : List α) (u v : List β), xs.flatMap f = u ++ v →
    (∃ ys zs, xs = ys ++ zs ∧ u = ys.flatMap f ∧ v = zs.flatMap f) ∨
    ∃ ys c zs p q, xs = ys ++ c :: zs ∧ f c = p ++ q ∧ p ≠ [] ∧ q ≠ [] ∧
      u = ys.flatMap f ++ p ∧ v = q ++ zs.flatMap f := by
  intro xs
  induction xs with
  | nil =>
    intro u v h
    obtain ⟨rfl, rfl⟩ := List.append_eq_nil_iff.mp h.symm
    exact Or.inl ⟨[], [], rfl, rfl, rfl⟩
  | cons a xs ih =>
    intro u v h
    rw [List.flatMap_cons] at h
    rcases List.append_eq_append_iff.mp h with ⟨w, rfl, hw⟩ | ⟨w, ha, rfl⟩
    · rcases ih w v hw with ⟨ys, zs, rfl, rfl, rfl⟩ | ⟨ys, c, zs, p, q, rfl, hc, hp, hq, rfl, rfl⟩
      · exact Or.inl ⟨a :: ys, zs, rfl, rfl, rfl⟩
      · exact Or.inr ⟨a :: ys, c, zs, p, q, rfl, hc, hp, hq, by simp, rfl⟩
    · by_cases hu : u = []
      · subst hu; exact Or.inl ⟨[], a :: xs, rfl, rfl, by simp [ha]⟩
      by_cases hw : w = []
      · subst hw
        rw [List.append_nil] at ha
        exact Or.inl ⟨[a], xs, rfl, by simp [ha], rfl⟩
      · exact Or.inr ⟨[], a, xs, u, w, rfl, ha, hu, hw, rfl, rfl⟩

/-- Pieces of words written one after the other end between two words, up to the first
    piece that ends inside one. -/
theorem split_pieces {α β : Type} (f : α → List β) : ∀ (cs : List (List β)) (xs : List α), cs.flatten <+: xs.flatMap f →
    (∃ (groups : List (List α)) (zs : List α), xs = groups.flatten ++ zs ∧ cs = groups.map (·.flatMap f)) ∨
    ∃ (groups : List (List α)) (ys : List α) (c : α) (zs : List α) (p q : List β) (us : List (List β)),
      xs = groups.flatten ++ ys ++ c :: zs ∧
      cs = groups.map (·.flatMap f) ++ (ys.flatMap f ++ p) :: us ∧ f c = p ++ q ∧ p ≠ [] ∧ q ≠ [] := by
  intro cs
  induction cs with
  | nil => intro xs _; exact Or.inl ⟨[], xs, rfl, rfl⟩
  | cons u cs ih =>
    rintro xs ⟨w, hw⟩
    rw [List.flatten_cons, List.append_assoc] at hw
    rcases split_flatMap f xs u _ hw.symm with ⟨ys, zs, rfl, rfl, hv⟩ | ⟨ys, c, zs, p, q, rfl, hc, hp, hq, rfl, -⟩
    · rcases ih zs ⟨w, hv⟩ with ⟨groups, zs, rfl, rfl⟩ | ⟨groups, ys', c, zs, p, q, us, rfl, rfl, h⟩
      · exact Or.inl ⟨ys :: groups, zs, by simp, rfl⟩
      · exact Or.inr ⟨ys :: groups, ys', c, zs, p, q, us, by simp, rfl, h⟩
    · exact Or.inr ⟨[], ys, c, zs, p, q, cs, rfl, rfl, hc, hp, hq⟩

/-- A code of symbols `α` in units `β`. `next` reads the front of an input: a symbol,
    or a malformed piece (`none`), with its length. -/
structure Code (α β : Type) where
  enc : α → List β
  next : List β → Option α × Nat
  enc_ne_nil : ∀ a, enc a ≠ []
  next_enc : ∀ a r, next (enc a ++ r) = (some a, (enc a).length)
  enc_of_next : ∀ {bs a n}, next bs = (some a, n) → ∃ r, bs = enc a ++ r ∧ n = (enc a).length
  next_pos : ∀ bs, bs ≠ [] → 0 < (next bs).2

namespace Code

variable {α β : Type} (C : Code α β)

/-- The text's words, one after the other. -/
def encode (xs : List α) : List β := xs.flatMap C.enc

def parseN : Nat → List β → List (Option α)
  | 0, _ => []
  | n + 1, bs => if bs.isEmpty then [] else (C.next bs).1 :: parseN n (bs.drop (C.next bs).2)

/-- Every symbol and malformed piece of an input, in order. -/
def parse (bs : List β) : List (Option α) := C.parseN bs.length bs

/-- The input as a text, each malformed piece replaced by `sub`. -/
def read (sub : α) (bs : List β) : List α := (C.parse bs).map (·.getD sub)

/-! ## Reading -/

theorem parseN_nil (n : Nat) : C.parseN n [] = [] := by cases n <;> rfl

theorem drop_next_lt {bs : List β} (h : bs ≠ []) : (bs.drop (C.next bs).2).length < bs.length := by
  have := C.next_pos bs h
  have := List.length_pos_iff.mpr h
  rw [List.length_drop]; omega

/-- Any fuel from the input's length on reads the same. -/
theorem parseN_enough : ∀ (n : Nat) (bs : List β), bs.length ≤ n → C.parseN n bs = C.parse bs := by
  intro n
  induction n using Nat.strongRecOn with
  | ind n ih =>
  intro bs hn
  by_cases hb : bs = []
  · subst hb; rw [parseN_nil, parse, parseN_nil]
  · have hlt := C.drop_next_lt hb
    have hpos := List.length_pos_iff.mpr hb
    obtain ⟨m, rfl⟩ : ∃ m, n = m + 1 := ⟨n - 1, by omega⟩
    obtain ⟨k, hk⟩ : ∃ k, bs.length = k + 1 := ⟨bs.length - 1, by omega⟩
    rw [parse, hk, parseN, parseN, ih m (by omega) _ (by omega), ih k (by omega) _ (by omega)]

@[simp] theorem parse_nil : C.parse [] = [] := rfl

theorem parse_of_ne {bs : List β} (h : bs ≠ []) :
    C.parse bs = (C.next bs).1 :: C.parse (bs.drop (C.next bs).2) := by
  have hlt := C.drop_next_lt h
  obtain ⟨k, hk⟩ : ∃ k, bs.length = k + 1 := ⟨bs.length - 1, by omega⟩
  rw [parse, hk, parseN, if_neg (by simpa using h), C.parseN_enough k _ (by omega)]

theorem parse_ne_nil {bs : List β} (h : bs ≠ []) : C.parse bs ≠ [] := by
  rw [C.parse_of_ne h]; simp

/-! ## Written texts -/

@[simp] theorem encode_cons (a : α) (xs : List α) : C.encode (a :: xs) = C.enc a ++ C.encode xs := rfl

theorem parse_enc_append (a : α) (r : List β) : C.parse (C.enc a ++ r) = some a :: C.parse r := by
  rw [C.parse_of_ne (by simp [C.enc_ne_nil a]), C.next_enc, List.drop_left]

/-- A written text reads back symbol by symbol, whatever follows it. -/
theorem parse_encode_append (xs : List α) (r : List β) :
    C.parse (C.encode xs ++ r) = xs.map some ++ C.parse r := by
  induction xs with
  | nil => rfl
  | cons a xs ih => rw [encode_cons, List.append_assoc, C.parse_enc_append, ih]; rfl

theorem parse_encode (xs : List α) : C.parse (C.encode xs) = xs.map some := by
  simpa using C.parse_encode_append xs []

/-- Only a written text reads as all symbols. -/
theorem encode_of_parse : ∀ (xs : List α) (bs : List β), C.parse bs = xs.map some → bs = C.encode xs := by
  intro xs
  induction xs with
  | nil =>
    intro bs h
    by_cases hb : bs = []
    · exact hb
    · exact absurd h (C.parse_ne_nil hb)
  | cons a xs ih =>
    intro bs h
    by_cases hb : bs = []
    · subst hb; simp at h
    rw [C.parse_of_ne hb, List.map_cons, List.cons.injEq] at h
    obtain ⟨r, hr, hn⟩ := C.enc_of_next (show C.next bs = (some a, (C.next bs).2) from Prod.ext h.1 rfl)
    have hd : bs.drop (C.next bs).2 = r := by rw [hn, hr, List.drop_left]
    rw [hd] at h
    rw [encode_cons, ← ih r h.2, ← hr]

theorem encode_injective {xs ys : List α} (h : C.encode xs = C.encode ys) : xs = ys := by
  have hp := C.parse_encode ys
  rw [← h, C.parse_encode] at hp
  exact List.map_injective_iff.mpr (Option.some_injective α) hp

/-! ## Cuts -/

/-- The first piece of a word cut short is malformed. -/
theorem next_cut {a : α} {p q : List β} (h : C.enc a = p ++ q) (hq : q ≠ []) : (C.next p).1 = none := by
  cases hn : (C.next p).1 with
  | none => rfl
  | some b =>
    obtain ⟨r, hr, -⟩ := C.enc_of_next (show C.next p = (some b, (C.next p).2) from Prod.ext hn rfl)
    have h1 := C.next_enc a []
    have h2 := C.next_enc b (r ++ q)
    rw [List.append_nil, h, hr, List.append_assoc, h2] at h1
    obtain rfl : b = a := Option.some_injective _ (congrArg Prod.fst h1)
    have hlen := congrArg List.length h
    rw [hr] at hlen
    simp only [List.length_append] at hlen
    have := List.length_pos_iff.mpr hq
    omega

/-! ## Reading with a substitute -/

variable (sub : α)

theorem read_encode_append (xs : List α) (r : List β) :
    C.read sub (C.encode xs ++ r) = xs ++ C.read sub r := by
  simp [read, C.parse_encode_append, Function.comp_def]

@[simp] theorem read_encode (xs : List α) : C.read sub (C.encode xs) = xs := by
  simpa [read] using C.read_encode_append sub xs []

/-- A text and more reads as the text only if there is no more. -/
theorem read_eq_of_append {xs : List α} {r : List β} (h : C.read sub (C.encode xs ++ r) = xs) : r = [] := by
  rw [C.read_encode_append] at h
  by_cases hr : r = []
  · exact hr
  · have : C.read sub r = [] := by simpa using h
    exact absurd (List.map_eq_nil_iff.mp this) (C.parse_ne_nil hr)

/-- A text cut short reads as the whole text only if nothing was cut off, or the cut
    is inside the substitute's own word. -/
theorem read_eq_of_cut {xs : List α} {u v : List β} (hx : C.encode xs = u ++ v) (h : C.read sub u = xs) :
    v = [] ∨ ∃ p q r, p ≠ [] ∧ q ≠ [] ∧ C.enc sub = p ++ q ∧ v = q ++ r := by
  rcases split_flatMap C.enc xs u v hx with ⟨ys, zs, rfl, rfl, rfl⟩ | ⟨ys, c, zs, p, q, rfl, hc, hp, hq, rfl, rfl⟩
  · have h : C.read sub (C.encode ys) = ys ++ zs := h
    rw [read_encode] at h
    left
    have : zs = [] := by simpa using h
    rw [this, List.flatMap_nil]
  · have h : C.read sub (C.encode ys ++ p) = ys ++ c :: zs := h
    rw [C.read_encode_append] at h
    have h' := List.append_cancel_left h
    rw [read, C.parse_of_ne hp, C.next_cut hc hq, List.map_cons, Option.getD_none, List.cons.injEq] at h'
    obtain ⟨rfl, -⟩ := h'
    exact Or.inr ⟨p, q, _, hp, hq, hc, rfl⟩

end Code

end NettyStudy.Text
