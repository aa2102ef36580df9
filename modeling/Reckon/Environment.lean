/-!
# Environments

An environment binds names to numbers. Its bindings are kept in the order of their names, each name
once, so that an environment is listed in that order and two environments with the same values for
all names are equal (`ext_get?`). What a name is bound to after a change is said by `get?_set`,
`get?_erase` and `get?_empty`.
-/
namespace Reckon

/-- Bindings of names to numbers, in the order of the names. -/
structure Environment where
  bindings : List (String × Float)
  sorted : bindings.Pairwise fun a b => a.1 < b.1
deriving DecidableEq

namespace Environment

/-- The bindings with one added, or replaced where the name is bound. -/
def insert (name : String) (value : Float) : List (String × Float) → List (String × Float)
  | [] => [(name, value)]
  | b :: rest =>
    if name < b.1 then (name, value) :: b :: rest
    else if name = b.1 then (name, value) :: rest
    else b :: insert name value rest

theorem mem_insert {name : String} {value : Float} {bs : List (String × Float)}
    {b : String × Float} (h : b ∈ insert name value bs) : b = (name, value) ∨ b ∈ bs := by
  induction bs with
  | nil => simpa [insert] using h
  | cons a rest ih =>
    unfold insert at h
    split at h
    · simpa using h
    · split at h
      · rcases List.mem_cons.1 h with h | h
        · exact .inl h
        · exact .inr (List.mem_cons_of_mem _ h)
      · rcases List.mem_cons.1 h with h | h
        · exact .inr (h ▸ List.mem_cons_self)
        · exact (ih h).imp id (List.mem_cons_of_mem _)

theorem lt_of_not_lt_of_ne {a b : String} (h : ¬ a < b) (hne : a ≠ b) : b < a := by
  refine String.not_le.1 fun hle => hne ?_
  exact String.le_antisymm hle (String.not_lt.1 h)

theorem pairwise_insert (name : String) (value : Float) {bs : List (String × Float)}
    (h : bs.Pairwise fun a b => a.1 < b.1) :
    (insert name value bs).Pairwise fun a b => a.1 < b.1 := by
  induction bs with
  | nil => simp [insert]
  | cons a rest ih =>
    obtain ⟨ha, hrest⟩ := List.pairwise_cons.1 h
    unfold insert
    split
    · rename_i hlt
      refine List.pairwise_cons.2 ⟨fun b hb => ?_, h⟩
      rcases List.mem_cons.1 hb with rfl | hb
      · exact hlt
      · exact String.lt_trans hlt (ha b hb)
    · rename_i hnot
      split
      · rename_i heq
        exact List.pairwise_cons.2 ⟨fun b hb => by rw [heq]; exact ha b hb, hrest⟩
      · rename_i hne
        refine List.pairwise_cons.2 ⟨fun b hb => ?_, ih hrest⟩
        rcases mem_insert hb with rfl | hb
        · exact lt_of_not_lt_of_ne hnot hne
        · exact ha b hb

def empty : Environment := ⟨[], .nil⟩

def get? (env : Environment) (name : String) : Option Float := env.bindings.lookup name

def set (env : Environment) (name : String) (value : Float) : Environment :=
  ⟨insert name value env.bindings, pairwise_insert name value env.sorted⟩

def erase (env : Environment) (name : String) : Environment :=
  ⟨env.bindings.filter fun b => b.1 != name, env.sorted.filter _⟩

def contains (env : Environment) (name : String) : Bool := (env.get? name).isSome

def size (env : Environment) : Nat := env.bindings.length

def isEmpty (env : Environment) : Bool := env.bindings.isEmpty

def setAll (env : Environment) (bindings : List (String × Float)) : Environment :=
  bindings.foldl (fun env b => env.set b.1 b.2) env

@[simp] theorem get?_empty (name : String) : empty.get? name = none := rfl

theorem lookup_insert (name x : String) (value : Float) (bs : List (String × Float)) :
    (insert name value bs).lookup x = if x = name then some value else bs.lookup x := by
  induction bs with
  | nil =>
    by_cases h : x = name
    · simp [insert, h]
    · simp [insert, h, List.lookup_cons, beq_false_of_ne h]
  | cons b rest ih =>
    obtain ⟨n, v⟩ := b
    unfold insert
    split
    · by_cases h : x = name
      · simp [h]
      · simp [List.lookup_cons, beq_false_of_ne h, h]
    · split
      · rename_i heq
        dsimp only at heq
        subst heq
        by_cases h : x = name
        · simp [h]
        · simp [List.lookup_cons, beq_false_of_ne h, h]
      · rename_i hne
        dsimp only at hne
        by_cases h : x = n
        · have hx : x ≠ name := fun hx => hne (hx ▸ h)
          subst h
          simp [hx]
        · simp [List.lookup_cons, beq_false_of_ne h, ih]

theorem get?_set (env : Environment) (name x : String) (value : Float) :
    (env.set name value).get? x = if x = name then some value else env.get? x :=
  lookup_insert name x value env.bindings

theorem get?_erase (env : Environment) (name x : String) :
    (env.erase name).get? x = if x = name then none else env.get? x := by
  unfold get? erase
  dsimp only
  induction env.bindings with
  | nil => simp
  | cons b rest ih =>
    obtain ⟨n, v⟩ := b
    by_cases hn : n = name
    · subst hn
      rw [List.filter_cons_of_neg (by simp), ih]
      by_cases h : x = n
      · simp [h]
      · simp [h, List.lookup_cons, beq_false_of_ne h]
    · rw [List.filter_cons_of_pos (by simpa using hn), List.lookup_cons, List.lookup_cons, ih]
      by_cases h : x = n
      · subst h
        simp [hn]
      · simp [beq_false_of_ne h]

theorem lookup_eq_none_of_lt {x : String} {bs : List (String × Float)}
    (h : ∀ b ∈ bs, x < b.1) : bs.lookup x = none := by
  induction bs with
  | nil => rfl
  | cons b rest ih =>
    have hne : x ≠ b.1 := fun he => String.lt_irrefl x (by
      have := h b List.mem_cons_self
      rwa [← he] at this)
    rw [List.lookup_cons, beq_false_of_ne hne]
    exact ih fun a ha => h a (List.mem_cons_of_mem _ ha)

theorem not_lookup_of_lt {x : String} {v : Float} {b : String × Float}
    {rest : List (String × Float)} (hx : x < b.1) (h : ∀ a ∈ rest, b.1 < a.1) :
    (b :: rest).lookup x ≠ some v := by
  have hlow : ∀ a ∈ b :: rest, x < a.1 := fun a ha => by
    rcases List.mem_cons.1 ha with rfl | ha
    · exact hx
    · exact String.lt_trans hx (h a ha)
  rw [lookup_eq_none_of_lt hlow]
  simp

/-- Of two sorted lists with the same values, neither begins with a name in front of the other's. -/
theorem first_name_eq {n m : String} {v w : Float} {rest rest' : List (String × Float)}
    (hlow : ∀ a ∈ rest, n < a.1) (hlow' : ∀ a ∈ rest', m < a.1)
    (h : ∀ x, ((n, v) :: rest).lookup x = ((m, w) :: rest').lookup x) : n = m := by
  have hn := h n
  have hm := h m
  rw [List.lookup_cons_self] at hn hm
  refine Decidable.byContradiction fun hne => ?_
  by_cases hlt : n < m
  · exact not_lookup_of_lt hlt hlow' hn.symm
  · exact not_lookup_of_lt (lt_of_not_lt_of_ne hlt hne) hlow hm

theorem eq_of_lookup_eq {bs cs : List (String × Float)}
    (hb : bs.Pairwise fun a b => a.1 < b.1) (hc : cs.Pairwise fun a b => a.1 < b.1)
    (h : ∀ x, bs.lookup x = cs.lookup x) : bs = cs := by
  induction bs generalizing cs with
  | nil =>
    cases cs with
    | nil => rfl
    | cons c rest =>
      obtain ⟨m, w⟩ := c
      have := h m
      simp at this
  | cons b rest ih =>
    obtain ⟨n, v⟩ := b
    cases cs with
    | nil =>
      have := h n
      simp at this
    | cons c rest' =>
      obtain ⟨m, w⟩ := c
      obtain ⟨hlow, hrest⟩ := List.pairwise_cons.1 hb
      obtain ⟨hlow', hrest'⟩ := List.pairwise_cons.1 hc
      obtain rfl : n = m := first_name_eq hlow hlow' h
      have hvalue := h n
      rw [List.lookup_cons_self, List.lookup_cons_self] at hvalue
      cases hvalue
      congr 1
      refine ih hrest hrest' fun x => ?_
      by_cases hx : x = n
      · rw [hx, lookup_eq_none_of_lt hlow, lookup_eq_none_of_lt hlow']
      · have := h x
        rwa [List.lookup_cons, List.lookup_cons, beq_false_of_ne hx] at this

/-- Environments with the same values are equal. -/
theorem ext_get? {env env' : Environment} (h : ∀ x, env.get? x = env'.get? x) : env = env' := by
  obtain ⟨bs, hb⟩ := env
  obtain ⟨cs, hc⟩ := env'
  congr
  exact eq_of_lookup_eq hb hc h

end Environment

end Reckon
