import SqlCommand.ClauseTree.Lowering

/-!
# Sameness of nodes

Two nodes are the same when their trees are equal up to the places of numbers. Rows of nodes are compared
node by node, so it matters where a part of a row that may be missing can be told from what stands
behind it.
-/

namespace SqlCommand

open Node

/-! ## Sameness of nodes -/

/-- Equality up to the places of numbers. -/
def Payload.same : Payload → Payload → Bool
  | number a, number b => a.same b
  | a, b => a == b

mutual

/-- Equality up to the places of numbers. -/
def Node.same : Node → Node → Bool
  | .mk kind payload ns, .mk kind' payload' ms =>
    kind == kind' && payload.same payload' && sameForest ns ms

/-- Equality of lists of trees up to the places of numbers. -/
def sameForest : List Node → List Node → Bool
  | [], [] => true
  | n :: ns, m :: ms => n.same m && sameForest ns ms
  | _, _ => false

end

theorem sameForest_eq_sameLists (ns ms : List Node) :
    sameForest ns ms = sameLists Node.same ns ms := by
  induction ns generalizing ms with
  | nil => cases ms <;> rfl
  | cons n ns ih =>
      cases ms with
      | nil => rfl
      | cons m ms => rw [sameForest, sameLists, ih]

theorem Node.same_mk (kind kind' : NodeKind) (payload payload' : Payload) (ns ms : List Node) :
    (mk kind payload ns).same (mk kind' payload' ms) =
      (kind == kind' && payload.same payload' && sameLists Node.same ns ms) := by
  rw [Node.same, sameForest_eq_sameLists]

@[simp] theorem Payload.same_text (s t : String) :
    (Payload.text s).same (.text t) = (s == t) := by
  rw [Bool.eq_iff_iff]
  simp [Payload.same]

/-! ## Lists in step -/

section

variable {α β : Type} {same same' : α → α → Bool}

theorem sameLists_append {as bs : List α} (h : as.length = bs.length) (cs ds : List α) :
    sameLists same (as ++ cs) (bs ++ ds) = (sameLists same as bs && sameLists same cs ds) := by
  induction as generalizing bs with
  | nil => rw [List.eq_nil_of_length_eq_zero h.symm]; rfl
  | cons a as ih =>
      cases bs with
      | nil => cases h
      | cons b bs =>
          rw [List.cons_append, List.cons_append, sameLists, sameLists, ih (Nat.succ.inj h),
            Bool.and_assoc]

/-- What closes both lists does not count when it is the same. -/
theorem sameLists_append_singleton {a b : α} (h : same a b = true) (as bs : List α) :
    sameLists same (as ++ [a]) (bs ++ [b]) = sameLists same as bs := by
  induction as generalizing bs with
  | nil => rcases bs with _ | ⟨c, _ | ⟨d, bs⟩⟩ <;> simp [sameLists, h]
  | cons c as ih =>
      cases bs with
      | nil => cases as <;> simp [sameLists]
      | cons d bs => rw [List.cons_append, List.cons_append, sameLists, sameLists, ih]

theorem length_eq_of_sameLists {as bs : List α} (h : sameLists same as bs = true) :
    as.length = bs.length := by
  induction as generalizing bs with
  | nil =>
      cases bs with
      | nil => rfl
      | cons => cases h
  | cons a as ih =>
      cases bs with
      | nil => cases h
      | cons b bs =>
          rw [sameLists, Bool.and_eq_true] at h
          exact congrArg Nat.succ (ih h.2)

theorem sameLists_map_map (f : β → α) (as bs : List β) :
    sameLists same (as.map f) (bs.map f) = sameLists (fun a b => same (f a) (f b)) as bs := by
  induction as generalizing bs with
  | nil => cases bs <;> rfl
  | cons a as ih =>
      cases bs with
      | nil => rfl
      | cons b bs => rw [List.map_cons, List.map_cons, sameLists, sameLists, ih]

theorem sameLists_congr {as bs : List α} (h : ∀ a ∈ as, ∀ b ∈ bs, same a b = same' a b) :
    sameLists same as bs = sameLists same' as bs := by
  induction as generalizing bs with
  | nil => cases bs <;> rfl
  | cons a as ih =>
      cases bs with
      | nil => rfl
      | cons b bs =>
          rw [sameLists, sameLists, h a List.mem_cons_self b List.mem_cons_self,
            ih fun x hx y hy => h x (List.mem_cons_of_mem a hx) y (List.mem_cons_of_mem b hy)]

theorem sameLists_beq [BEq α] (as bs : List α) : sameLists (· == ·) as bs = (as == bs) := by
  induction as generalizing bs with
  | nil => cases bs <;> rfl
  | cons a as ih =>
      cases bs with
      | nil => rfl
      | cons b bs => rw [sameLists, ih, List.cons_beq_cons]

end

/-! ## Rows of nodes -/

namespace Node

variable {n m : Node} {ns ms t u : List Node}

/-- The kind of the first node of a row. -/
def firstKind? (ns : List Node) : Option NodeKind := ns.head?.map kind

theorem same_of_kind_ne (h : n.kind ≠ m.kind) : n.same m = false := by
  obtain ⟨kind, payload, children⟩ := n
  obtain ⟨kind', payload', children'⟩ := m
  have hne : (kind == kind') = false := beq_eq_false_iff_ne.mpr h
  rw [same_mk, hne, Bool.false_and, Bool.false_and]

/-- Rows that start with different kinds differ. -/
theorem sameLists_of_firstKind?_ne (h : firstKind? ns ≠ firstKind? ms) :
    sameLists Node.same ns ms = false := by
  cases ns with
  | nil =>
      cases ms with
      | nil => exact absurd rfl h
      | cons m ms => rfl
  | cons n ns =>
      cases ms with
      | nil => rfl
      | cons m ms =>
          rw [sameLists, same_of_kind_ne fun hk => h (congrArg some hk), Bool.false_and]

@[simp] theorem same_fixed (kind : NodeKind) : (fixed kind).same (fixed kind) = true := by
  have hpayload : (fixedPayload kind).same (fixedPayload kind) = true := by
    cases kind <;> rfl
  rw [fixed, branch, same_mk, hpayload, beq_self_eq_true]
  rfl

@[simp] theorem same_branch (kind kind' : NodeKind) (ns ms : List Node) :
    (branch kind ns).same (branch kind' ms) = (kind == kind' && sameLists Node.same ns ms) := by
  by_cases hk : kind = kind'
  · subst hk
    have hfixed := same_fixed kind
    rw [fixed, branch, same_mk, sameLists, Bool.and_true] at hfixed
    rw [branch, branch, same_mk, hfixed, beq_self_eq_true]
  · have hne : (branch kind ns).same (branch kind' ms) = false := same_of_kind_ne hk
    rw [hne, beq_eq_false_iff_ne.mpr hk, Bool.false_and]

/-- Rows behind commas stop where no comma follows. -/
theorem sameLists_flatMap_comma (ht : firstKind? t ≠ some .comma) (hu : firstKind? u ≠ some .comma)
    (ns ms : List Node) :
    sameLists Node.same ((ns.flatMap fun next => [fixed .comma, next]) ++ t)
        ((ms.flatMap fun next => [fixed .comma, next]) ++ u) =
      (sameLists Node.same ns ms && sameLists Node.same t u) := by
  induction ns generalizing ms with
  | nil =>
      cases ms with
      | nil => rfl
      | cons m ms => exact sameLists_of_firstKind?_ne ht
  | cons n ns ih =>
      cases ms with
      | nil => exact sameLists_of_firstKind?_ne hu.symm
      | cons m ms =>
          simp only [List.flatMap_cons, List.cons_append, List.nil_append, sameLists, same_fixed,
            Bool.true_and, ih, Bool.and_assoc]

theorem sameLists_commaSeparated_append (hns : ns ≠ []) (hms : ms ≠ [])
    (ht : firstKind? t ≠ some .comma) (hu : firstKind? u ≠ some .comma) :
    sameLists Node.same (commaSeparated ns ++ t) (commaSeparated ms ++ u) =
      (sameLists Node.same ns ms && sameLists Node.same t u) := by
  obtain ⟨n, ns, rfl⟩ := List.exists_cons_of_ne_nil hns
  obtain ⟨m, ms, rfl⟩ := List.exists_cons_of_ne_nil hms
  rw [commaSeparated, commaSeparated, List.cons_append, List.cons_append, sameLists,
    sameLists_flatMap_comma ht hu, sameLists, Bool.and_assoc]

@[simp] theorem sameLists_commaSeparated (ns ms : List Node) :
    sameLists Node.same (commaSeparated ns) (commaSeparated ms) = sameLists Node.same ns ms := by
  cases ns with
  | nil => cases ms <;> rfl
  | cons n ns =>
      cases ms with
      | nil => rfl
      | cons m ms =>
          have h := sameLists_commaSeparated_append (List.cons_ne_nil n ns) (List.cons_ne_nil m ms)
            (t := []) (u := []) nofun nofun
          rwa [List.append_nil, List.append_nil, sameLists, Bool.and_true] at h

@[simp] theorem sameLists_grouped (ns ms : List Node) :
    sameLists Node.same (grouped ns) (grouped ms) = sameLists Node.same ns ms := by
  rw [grouped, grouped, List.cons_append, List.cons_append, sameLists, same_fixed, Bool.true_and,
    sameLists_append_singleton (same_fixed _)]

/-- A part of a row that may be missing: where it is there, it starts with a kind and has a fixed
length. -/
def IsOptional (kind : NodeKind) (length : Nat) (part : List Node) : Prop :=
  part = [] ∨ firstKind? part = some kind ∧ part.length = length

theorem firstKind?_append {kind : NodeKind} (h : firstKind? ns = some kind) (t : List Node) :
    firstKind? (ns ++ t) = some kind := by
  cases ns with
  | nil => cases h
  | cons n ns => exact h

/-- When nothing behind an optional part starts with its kind, it can be told apart. -/
theorem IsOptional.same_append {kind : NodeKind} {length : Nat}
    (hn : IsOptional kind length ns) (hm : IsOptional kind length ms)
    (ht : firstKind? t ≠ some kind) (hu : firstKind? u ≠ some kind) :
    sameLists Node.same (ns ++ t) (ms ++ u) =
      (sameLists Node.same ns ms && sameLists Node.same t u) := by
  rcases hn with rfl | ⟨hn, hlength⟩ <;> rcases hm with rfl | ⟨hm, hlength'⟩
  · rfl
  · have hrow : sameLists Node.same t (ms ++ u) = false :=
      sameLists_of_firstKind?_ne (by rwa [firstKind?_append hm])
    have hpart : sameLists Node.same [] ms = false :=
      sameLists_of_firstKind?_ne (by rw [hm]; nofun)
    rw [List.nil_append, hrow, hpart, Bool.false_and]
  · have hrow : sameLists Node.same (ns ++ t) u = false :=
      sameLists_of_firstKind?_ne (by rw [firstKind?_append hn]; exact hu.symm)
    have hpart : sameLists Node.same ns [] = false :=
      sameLists_of_firstKind?_ne (by rw [hn]; nofun)
    rw [List.nil_append, hrow, hpart, Bool.false_and]
  · exact sameLists_append (hlength.trans hlength'.symm) t u

end Node

/-! ## Single nodes -/

@[simp] theorem same_identifier (n m : String) : (identifier n).same (identifier m) = (n == m) := by
  simp [identifier, same_mk, sameLists]

theorem same_qualified (table column table' column' : String) :
    (qualified table column).same (qualified table' column') =
      (table == table' && column == column') := by
  simp [qualified, sameLists]

theorem same_string (s t : String) : (Node.string s).same (Node.string t) = (s == t) := by
  simp [Node.string, same_mk, sameLists]

theorem same_string_identifier (s n : String) :
    (Node.string s).same (identifier n) = false ∧ (identifier n).same (Node.string s) = false :=
  ⟨same_of_kind_ne (by decide : NodeKind.string ≠ .identifier),
    same_of_kind_ne (by decide : NodeKind.identifier ≠ .string)⟩

theorem same_number (d d' : Decimal) : (Node.number d).same (Node.number d') = d.same d' :=
  Bool.and_true _

/-! ## Roots -/

/-- What stands at the root of an expression or a condition. -/
inductive Root where
  | wildcard | literal | qualified | call | negate | binary | comparison | logical | not | bitwiseNot

/-- The root that a node of a kind stands for, given how many children it has. -/
def rootOf : NodeKind → Nat → Root
  | .equals, _ | .notEquals, _ | .lessThan, _ | .greaterThan, _ | .lessThanOrEquals, _
  | .greaterThanOrEquals, _ => .comparison
  | .and, _ | .or, _ => .logical
  | .not, _ => .not
  | .tilde, _ => .bitwiseNot
  | .dot, _ => .qualified
  | .identifier, _ + 1 => .call
  | .minus, 1 => .negate
  | .asterisk, 0 => .wildcard
  | _, 0 => .literal
  | _, _ => .binary

def Node.root (n : Node) : Root := rootOf n.kind n.children.length

theorem same_of_root_ne {n m : Node} (h : n.root ≠ m.root) : n.same m = false := by
  obtain ⟨kind, payload, ns⟩ := n
  obtain ⟨kind', payload', ms⟩ := m
  refine Bool.eq_false_iff.mpr fun hsame => h ?_
  rw [same_mk, Bool.and_eq_true, Bool.and_eq_true, beq_iff_eq] at hsame
  change rootOf kind ns.length = rootOf kind' ms.length
  rw [hsame.1.1, length_eq_of_sameLists hsame.2]

theorem same_asterisk_commaSeparated {ns : List Node} (h : ∀ n ∈ ns, n.root ≠ .wildcard) :
    sameLists Node.same [fixed .asterisk] (commaSeparated ns) = false ∧
      sameLists Node.same (commaSeparated ns) [fixed .asterisk] = false := by
  cases ns with
  | nil => exact ⟨rfl, rfl⟩
  | cons n ns =>
      have hn := h n List.mem_cons_self
      have hleft : (fixed .asterisk).same n = false := same_of_root_ne hn.symm
      have hright : n.same (fixed .asterisk) = false := same_of_root_ne hn
      rw [commaSeparated, sameLists, sameLists, hleft, hright]
      exact ⟨rfl, rfl⟩

end SqlCommand
