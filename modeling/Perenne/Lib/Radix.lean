import Mathlib.Logic.Function.Basic
import Mathlib.Data.List.Induction

/-!
A forest of tables in a heap. Every table has one place, the root of its tree and the
path of indices that leads to it, so a write to one entry is seen along one path only.
-/

namespace Radix

variable {N I E : Type*}

def descend (next : E → Option N) (heap : N → I → E) : N → List I → Option N
  | n, [] => some n
  | n, i :: p => (next (heap n i)).bind fun c => descend next heap c p

def leaf (next : E → Option N) (valid : E → Bool) (heap : N → I → E) (n : N) (p : List I)
    (k : I) : Option E :=
  (descend next heap n p).bind fun t => if valid (heap t k) then some (heap t k) else none

/-- The tables are placed in trees of the given depth: the entries above the bottom are
empty or point one step further, and every table but the roots is pointed to. -/
structure Forest (zero : E) (ptr : N → E) (depth : Nat) (place : N → Option (N × List I))
    (heap : N → I → E) : Prop where
  bound {n r : N} {p : List I} (hn : place n = some (r, p)) : p.length ≤ depth
  rooted {n r : N} (hn : place n = some (r, [])) : n = r
  inner {n r : N} {p : List I} (hn : place n = some (r, p)) (hlt : p.length < depth)
    (i : I) : heap n i = zero ∨ ∃ c, heap n i = ptr c ∧ place c = some (r, p ++ [i])
  reached {c r : N} {p : List I} {i : I} (hc : place c = some (r, p ++ [i])) :
    ∃ n, place n = some (r, p) ∧ heap n i = ptr c

/-- A reader of entries that tells empty ones from pointers to placed tables. -/
structure Reads (zero : E) (ptr : N → E) (place : N → Option (N × List I))
    (next : E → Option N) : Prop where
  zero : next zero = none
  ptr {c r : N} {p : List I} (hc : place c = some (r, p)) : next (ptr c) = some c

variable {next : E → Option N} {valid : E → Bool} {heap : N → I → E} {zero : E}
  {ptr : N → E} {depth : Nat} {place : N → Option (N × List I)}

theorem descend_append (n : N) (p q : List I) :
    descend next heap n (p ++ q) = (descend next heap n p).bind fun c => descend next heap c q := by
  induction p generalizing n with
  | nil => rfl
  | cons i p ih => simp only [List.cons_append, descend, Option.bind_assoc, ih]

theorem Forest.descend_eq_some (h : Forest zero ptr depth place heap)
    (hnext : Reads zero ptr place next) {r t : N} {p : List I} (hr : place r = some (r, []))
    (hp : p.length ≤ depth) : descend next heap r p = some t ↔ place t = some (r, p) := by
  induction p using List.reverseRecOn generalizing t with
  | nil =>
    constructor
    · intro hd
      exact Option.some.inj hd ▸ hr
    · intro ht
      rw [h.rooted ht]
      rfl
  | append_singleton p i ih =>
    rw [List.length_append, List.length_singleton] at hp
    rw [descend_append, Option.bind_eq_some_iff]
    constructor
    · rintro ⟨n, hn, hd⟩
      have hn := (ih (by omega)).mp hn
      obtain ⟨c, hc, hd⟩ := Option.bind_eq_some_iff.mp hd
      obtain hi | ⟨c', hi, hc'⟩ := h.inner hn (by omega) i
      · rw [hi, hnext.zero] at hc
        cases hc
      · rw [hi, hnext.ptr hc'] at hc
        obtain rfl := Option.some.inj hc
        exact Option.some.inj hd ▸ hc'
    · intro ht
      obtain ⟨n, hn, hi⟩ := h.reached ht
      refine ⟨n, (ih (by omega)).mpr hn, ?_⟩
      simp only [descend, hi, hnext.ptr ht, Option.bind_some]

theorem Forest.unique (h : Forest zero ptr depth place heap) (hnext : Reads zero ptr place next)
    {r t t' : N} {p : List I} (hr : place r = some (r, [])) (ht : place t = some (r, p))
    (ht' : place t' = some (r, p)) : t = t' := by
  have hd := (h.descend_eq_some hnext hr (h.bound ht)).mpr ht
  exact Option.some.inj (hd.symm.trans ((h.descend_eq_some hnext hr (h.bound ht)).mpr ht'))

theorem Forest.leaf_eq (h : Forest zero ptr depth place heap) (hnext : Reads zero ptr place next)
    {r t : N} {p : List I} (hr : place r = some (r, [])) (ht : place t = some (r, p)) (k : I) :
    leaf next valid heap r p k = if valid (heap t k) then some (heap t k) else none := by
  rw [leaf, (h.descend_eq_some hnext hr (h.bound ht)).mpr ht, Option.bind_some]

theorem Forest.leaf_eq_none (h : Forest zero ptr depth place heap)
    (hnext : Reads zero ptr place next) {r : N} {p : List I} (hr : place r = some (r, []))
    (hp : p.length ≤ depth) (hno : ∀ t, place t ≠ some (r, p)) (k : I) :
    leaf next valid heap r p k = none := by
  rw [leaf, Option.bind_eq_none_iff]
  intro t ht
  exact absurd ((h.descend_eq_some hnext hr hp).mp ht) (hno t)

section Agree

variable {heap' : N → I → E} (h : Forest zero ptr depth place heap)
  (hagree : ∀ n x, place n = some x → heap' n = heap n)

include h hagree

theorem Forest.congr : Forest zero ptr depth place heap' := by
  refine ⟨h.bound, h.rooted, fun hn hlt i => ?_, fun hc => ?_⟩
  · rw [hagree _ _ hn]
    exact h.inner hn hlt i
  · obtain ⟨n, hn, hi⟩ := h.reached hc
    exact ⟨n, hn, by rw [hagree _ _ hn, hi]⟩

theorem Forest.leaf_congr (hnext : Reads zero ptr place next) {r : N} {p : List I}
    (hr : place r = some (r, [])) (hp : p.length ≤ depth) (k : I) :
    leaf next valid heap' r p k = leaf next valid heap r p k := by
  have h' := h.congr hagree
  by_cases hsome : ∃ t, place t = some (r, p)
  · obtain ⟨t, ht⟩ := hsome
    rw [h'.leaf_eq hnext hr ht, h.leaf_eq hnext hr ht, hagree t _ ht]
  · rw [h'.leaf_eq_none hnext hr hp fun t ht => hsome ⟨t, ht⟩,
      h.leaf_eq_none hnext hr hp fun t ht => hsome ⟨t, ht⟩]

end Agree

theorem leaf_of_empty {c : N} (hempty : ∀ k, heap c k = zero) (hzero : next zero = none)
    (hvalid : valid zero = false) (p : List I) (k : I) : leaf next valid heap c p k = none := by
  cases p with
  | nil => simp [leaf, descend, hempty, hvalid]
  | cons i p => simp [leaf, descend, hempty, hzero]

theorem Forest.plant [DecidableEq N] (h : Forest zero ptr depth place heap) {c : N}
    (hfresh : place c = none) (hempty : ∀ k, heap c k = zero) :
    Forest zero ptr depth (Function.update place c (some (c, []))) heap := by
  have hplaced {n : N} {x : N × List I} (hn : place n = some x) :
      Function.update place c (some (c, [])) n = some x := by
    rwa [Function.update_of_ne]
    rintro rfl
    cases hfresh.symm.trans hn
  have hsplit {n : N} {x : N × List I} (hn : Function.update place c (some (c, [])) n = some x) :
      (n = c ∧ x = (c, [])) ∨ place n = some x := by
    by_cases hnc : n = c
    · subst hnc
      rw [Function.update_self] at hn
      exact .inl ⟨rfl, (Option.some.inj hn).symm⟩
    · rw [Function.update_of_ne hnc] at hn
      exact .inr hn
  refine ⟨fun hnew => ?_, fun hnew => ?_, fun hnew hlt i => ?_, fun hnew => ?_⟩
  · obtain ⟨-, heq⟩ | hn := hsplit hnew
    · simp [(Prod.mk.inj heq).2]
    · exact h.bound hn
  · obtain ⟨rfl, heq⟩ | hn := hsplit hnew
    · exact (Prod.mk.inj heq).1.symm
    · exact h.rooted hn
  · obtain ⟨rfl, -⟩ | hn := hsplit hnew
    · exact .inl (hempty i)
    · exact (h.inner hn hlt i).imp_right fun ⟨c', hi, hc'⟩ => ⟨c', hi, hplaced hc'⟩
  · obtain ⟨-, heq⟩ | hc := hsplit hnew
    · simp at heq
    · obtain ⟨n, hn, hi⟩ := h.reached hc
      exact ⟨n, hplaced hn, hi⟩

section Write

variable [DecidableEq N] [DecidableEq I]

/-- One entry of one table is overwritten. -/
def write (heap : N → I → E) (n : N) (i : I) (e : E) : N → I → E :=
  Function.update heap n (Function.update (heap n) i e)

@[simp] theorem write_self (heap : N → I → E) (n : N) (i : I) (e : E) :
    write heap n i e n i = e := by
  simp [write]

theorem write_of_ne_index (heap : N → I → E) {n : N} {i k : I} (e : E) (h : k ≠ i) :
    write heap n i e n k = heap n k := by
  simp [write, h]

theorem write_of_ne (heap : N → I → E) {n t : N} {i k : I} (e : E) (h : t ≠ n) :
    write heap n i e t k = heap t k := by
  simp [write, h]

theorem Forest.write_bottom (h : Forest zero ptr depth place heap) {t r : N} {p : List I}
    (ht : place t = some (r, p)) (hp : p.length = depth) (k : I) (e : E) :
    Forest zero ptr depth place (write heap t k e) := by
  have hne {n r' : N} {q : List I} (hn : place n = some (r', q)) (hlt : q.length < depth) :
      n ≠ t := by
    rintro rfl
    obtain ⟨-, rfl⟩ := Prod.mk.inj (Option.some.inj (ht.symm.trans hn))
    omega
  refine ⟨h.bound, h.rooted, fun hn hlt i => ?_, fun {c r' q i} hc => ?_⟩
  · rw [write_of_ne heap e (hne hn hlt)]
    exact h.inner hn hlt i
  · obtain ⟨n, hn, hi⟩ := h.reached hc
    have hlen := h.bound hc
    rw [List.length_append, List.length_singleton] at hlen
    exact ⟨n, hn, (write_of_ne heap e (hne hn (by omega))).trans hi⟩

/-- A valid entry written at the bottom is found along its own path, and every other
entry is found as before. -/
theorem Forest.leaf_write (h : Forest zero ptr depth place heap)
    (hnext : Reads zero ptr place next) {t r₀ : N} {p₀ : List I} (hr₀ : place r₀ = some (r₀, []))
    (ht : place t = some (r₀, p₀)) (hp₀ : p₀.length = depth) {k₀ : I} {e : E}
    (he : valid e = true) {r : N} {p : List I} (hr : place r = some (r, []))
    (hp : p.length = depth) (k : I) :
    leaf next valid (write heap t k₀ e) r p k =
      if r = r₀ ∧ p = p₀ ∧ k = k₀ then some e else leaf next valid heap r p k := by
  have h' := h.write_bottom ht hp₀ k₀ e
  by_cases hsome : ∃ t', place t' = some (r, p)
  · obtain ⟨t', ht'⟩ := hsome
    rw [h'.leaf_eq hnext hr ht', h.leaf_eq hnext hr ht']
    by_cases hplace : r = r₀ ∧ p = p₀
    · obtain ⟨rfl, rfl⟩ := hplace
      obtain rfl := h.unique hnext hr ht ht'
      by_cases hk : k = k₀
      · subst hk
        simp [he]
      · simp [write_of_ne_index heap e hk, hk]
    · have hne : t' ≠ t := by
        rintro rfl
        obtain ⟨rfl, rfl⟩ := Prod.mk.inj (Option.some.inj (ht.symm.trans ht'))
        exact hplace ⟨rfl, rfl⟩
      have hother : ¬ (r = r₀ ∧ p = p₀ ∧ k = k₀) := fun hall => hplace ⟨hall.1, hall.2.1⟩
      rw [write_of_ne heap e hne, if_neg hother]
  · rw [h'.leaf_eq_none hnext hr (Nat.le_of_eq hp) (fun t' ht' => hsome ⟨t', ht'⟩),
      h.leaf_eq_none hnext hr (Nat.le_of_eq hp) (fun t' ht' => hsome ⟨t', ht'⟩), if_neg]
    rintro ⟨rfl, rfl, -⟩
    exact hsome ⟨t, ht⟩

section Attach

variable (h : Forest zero ptr depth place heap) (hnext : Reads zero ptr place next)
  {t r c : N} {p : List I} {i : I} (hr : place r = some (r, [])) (ht : place t = some (r, p))
  (hlt : p.length < depth) (hempty : heap t i = zero) (hfresh : place c = none)

include h hnext hr ht hlt hempty hfresh

theorem Forest.attach :
    Forest zero ptr depth (Function.update place c (some (r, p ++ [i])))
      (write (Function.update heap c fun _ => zero) t i (ptr c)) := by
  have hct : t ≠ c := by
    rintro rfl
    cases hfresh.symm.trans ht
  have hkeep {n : N} (k : I) (hn : n ≠ c) (hi : n = t → k ≠ i) :
      write (Function.update heap c fun _ => zero) t i (ptr c) n k = heap n k := by
    by_cases hnt : n = t
    · subst hnt
      rw [write_of_ne_index _ _ (hi rfl), Function.update_of_ne hn]
    · rw [write_of_ne _ _ hnt, Function.update_of_ne hn]
  have hplaced {n : N} {x : N × List I} (hn : place n = some x) :
      Function.update place c (some (r, p ++ [i])) n = some x := by
    rwa [Function.update_of_ne]
    rintro rfl
    cases hfresh.symm.trans hn
  have hsplit {n : N} {x : N × List I}
      (hn : Function.update place c (some (r, p ++ [i])) n = some x) :
      (n = c ∧ x = (r, p ++ [i])) ∨ (n ≠ c ∧ place n = some x) := by
    by_cases hnc : n = c
    · subst hnc
      rw [Function.update_self] at hn
      exact .inl ⟨rfl, (Option.some.inj hn).symm⟩
    · rw [Function.update_of_ne hnc] at hn
      exact .inr ⟨hnc, hn⟩
  refine ⟨fun {n r' q} hnew => ?_, fun {n r'} hnew => ?_, fun {n r' q} hnew hlt' k => ?_,
    fun {c' r' q k} hnew => ?_⟩
  · obtain ⟨-, heq⟩ | ⟨-, hn⟩ := hsplit hnew
    · obtain ⟨-, rfl⟩ := Prod.mk.inj heq
      rw [List.length_append, List.length_singleton]
      omega
    · exact h.bound hn
  · obtain ⟨-, heq⟩ | ⟨-, hn⟩ := hsplit hnew
    · simp at heq
    · exact h.rooted hn
  · obtain ⟨rfl, heq⟩ | ⟨hnc, hn⟩ := hsplit hnew
    · left
      rw [write_of_ne _ _ hct.symm, Function.update_self]
    · by_cases hentry : n = t ∧ k = i
      · obtain ⟨rfl, rfl⟩ := hentry
        obtain ⟨rfl, rfl⟩ := Prod.mk.inj (Option.some.inj (ht.symm.trans hn))
        exact .inr ⟨c, write_self .., Function.update_self ..⟩
      · rw [hkeep k hnc fun hnt hk => hentry ⟨hnt, hk⟩]
        exact (h.inner hn hlt' k).imp_right fun ⟨c', hi, hc'⟩ => ⟨c', hi, hplaced hc'⟩
  · obtain ⟨rfl, heq⟩ | ⟨hnc, hc'⟩ := hsplit hnew
    · obtain ⟨rfl, hpath⟩ := Prod.mk.inj heq
      obtain ⟨rfl, hlast⟩ := List.append_inj' hpath rfl
      obtain rfl := List.singleton_inj.mp hlast
      exact ⟨t, hplaced ht, write_self ..⟩
    · obtain ⟨n, hn, hi⟩ := h.reached hc'
      have hne : n ≠ c := by
        rintro rfl
        cases hfresh.symm.trans hn
      refine ⟨n, hplaced hn, (hkeep k hne ?_).trans hi⟩
      rintro rfl rfl
      -- The entry was empty, so it pointed nowhere.
      have := hnext.ptr hc'
      rw [← hi, hempty, hnext.zero] at this
      cases this

theorem Forest.leaf_attach
    (hnext' : Reads zero ptr (Function.update place c (some (r, p ++ [i]))) next)
    (hvalid : valid zero = false) {r' : N} {q : List I} (hr' : place r' = some (r', []))
    (hq : q.length = depth) (k : I) :
    leaf next valid (write (Function.update heap c fun _ => zero) t i (ptr c)) r' q k =
      leaf next valid heap r' q k := by
  have h' := h.attach hnext hr ht hlt hempty hfresh
  have hne {n : N} {x : N × List I} (hn : place n = some x) : n ≠ c := by
    rintro rfl
    cases hfresh.symm.trans hn
  have hroot : Function.update place c (some (r, p ++ [i])) r' = some (r', []) := by
    rw [Function.update_of_ne (hne hr'), hr']
  by_cases hsome : ∃ t', place t' = some (r', q)
  · obtain ⟨t', ht'⟩ := hsome
    have htt : t' ≠ t := by
      rintro rfl
      obtain ⟨-, rfl⟩ := Prod.mk.inj (Option.some.inj (ht.symm.trans ht'))
      omega
    rw [h'.leaf_eq hnext' hroot ((Function.update_of_ne (hne ht') ..).trans ht'),
      h.leaf_eq hnext hr' ht', write_of_ne _ _ htt, Function.update_of_ne (hne ht')]
  · rw [h.leaf_eq_none hnext hr' (Nat.le_of_eq hq) fun t' ht' => hsome ⟨t', ht'⟩]
    by_cases hnew : r' = r ∧ q = p ++ [i]
    · obtain ⟨rfl, rfl⟩ := hnew
      have hct : c ≠ t := (hne ht).symm
      rw [h'.leaf_eq hnext' hroot (Function.update_self ..), write_of_ne _ _ hct,
        Function.update_self, if_neg (by simp [hvalid])]
    · refine h'.leaf_eq_none hnext' hroot (Nat.le_of_eq hq) (fun t' ht' => ?_) k
      by_cases htc : t' = c
      · subst htc
        rw [Function.update_self] at ht'
        obtain ⟨rfl, rfl⟩ := Prod.mk.inj (Option.some.inj ht')
        exact hnew ⟨rfl, rfl⟩
      · rw [Function.update_of_ne htc] at ht'
        exact hsome ⟨t', ht'⟩

end Attach

end Write

end Radix
