import SqlCommand.CommandLine.Run
import SqlCommand.Proofs.NodeShapes

/-!
# Walks of clause trees

A node stands at the end of a path of child indices. The walk from the root on, the list of leaves
and the lines of a tree all come in the order of these paths: a path before the paths that go on from
it, and those before the paths that branch off further right. A line has its path's length as
indentation and stays one line, whatever the text of its node holds.
-/

namespace SqlCommand

/-! ## Characters of a line -/

namespace Escaped

/-- Control characters, and the two separators of lines and paragraphs. -/
def controlPoints : List Nat := List.range 32 ++ List.range' 127 33 ++ [0x2028, 0x2029]

variable {c d : Char}

theorem isUnprintable_of_mem_controlPoints (h : c.toNat ∈ controlPoints) :
    isUnprintable c = true := by
  have hall : ∀ n ∈ controlPoints, isUnprintable (Char.ofNat n) = true := by decide +kernel
  have hc := hall _ h
  rwa [Char.ofNat_toNat] at hc

/-- The space, and the letters, digits and marks of ASCII. -/
def isGraphic (c : Char) : Bool := 32 ≤ c.toNat && c.toNat < 127

theorem isUnprintable_of_isGraphic (h : isGraphic c = true) : isUnprintable c = false := by
  rw [isGraphic, Bool.and_eq_true, decide_eq_true_eq, decide_eq_true_eq] at h
  rw [isUnprintable, if_pos h.2, decide_eq_false_iff_not]
  exact Nat.not_lt.mpr h.1

/-- The digits of a number in base sixteen. -/
theorem exists_digitChar_of_mem_toDigits {n : Nat} (h : d ∈ Nat.toDigits 16 n) :
    ∃ k < 16, d = Nat.digitChar k := by
  induction n using Nat.strongRecOn with
  | ind n ih =>
      by_cases hn : n < 16
      · rw [Nat.toDigits_of_lt_base hn, List.mem_singleton] at h
        exact ⟨n, hn, h⟩
      · rw [Nat.toDigits_of_base_le (by decide) (by omega), List.mem_append,
          List.mem_singleton] at h
        rcases h with h | h
        · exact ih (n / 16) (by omega) h
        · exact ⟨n % 16, Nat.mod_lt n (by decide), h⟩

theorem isGraphic_digitChar {k : Nat} (hk : k < 16) : isGraphic (Nat.digitChar k) = true := by
  have hdigits : ((List.range 16).all fun k => isGraphic (Nat.digitChar k)) = true := by decide
  exact List.all_eq_true.mp hdigits k (List.mem_range.mpr hk)

theorem isUnprintable_of_mem_codePoint (h : d ∈ codePoint c) : isUnprintable d = false := by
  have hmarks : ['\\', 'u', '\x7b', '\x7d'].all isGraphic = true := by decide
  rw [List.all_eq_true] at hmarks
  rw [codePoint, List.append_assoc, List.mem_append, List.mem_append] at h
  apply isUnprintable_of_isGraphic
  rcases h with h | h | h
  · exact hmarks d (List.mem_append_left ['\x7d'] h)
  · obtain ⟨k, hk, rfl⟩ := exists_digitChar_of_mem_toDigits h
    exact isGraphic_digitChar hk
  · exact hmarks d (List.mem_append_right ['\\', 'u', '\x7b'] h)

/-- Whatever a character is, it is shown by printable ones. -/
theorem isUnprintable_of_mem_character (h : d ∈ character c) : isUnprintable d = false := by
  have hescape {e : Char} (he : ['\\', e].all isGraphic = true) (h : d ∈ ['\\', e]) :
      isUnprintable d = false :=
    isUnprintable_of_isGraphic (List.all_eq_true.mp he d h)
  unfold character at h
  split at h
  · exact hescape (by decide) h
  · exact hescape (by decide) h
  · exact hescape (by decide) h
  · exact hescape (by decide) h
  · exact hescape (by decide) h
  · exact hescape (by decide) h
  · split at h
    · exact isUnprintable_of_mem_codePoint h
    · next hprintable =>
      rw [Bool.not_eq_true, Bool.or_eq_false_iff] at hprintable
      rw [List.mem_singleton.mp h]
      exact hprintable.2

theorem isUnprintable_of_mem_quoted {text : String} (h : d ∈ (quoted text).toList) :
    isUnprintable d = false := by
  rw [quoted, String.toList_ofList, List.cons_append, List.mem_cons, List.mem_append,
    List.mem_singleton, List.mem_flatMap] at h
  rcases h with rfl | ⟨c, -, h⟩ | rfl
  · exact isUnprintable_of_isGraphic rfl
  · exact isUnprintable_of_mem_character h
  · exact isUnprintable_of_isGraphic rfl

end Escaped

/-- The name of a kind is not empty. It is printable and has no spaces. -/
theorem NodeKind.name_eq_cons (kind : NodeKind) :
    ∃ c cs, kind.name.toList = c :: cs ∧
      ∀ d ∈ c :: cs, d ≠ ' ' ∧ Escaped.isUnprintable d = false := by
  have hname : (!kind.name.toList.isEmpty &&
      kind.name.toList.all fun d => d != ' ' && Escaped.isGraphic d) = true := by
    cases kind <;> decide +kernel
  cases hletters : kind.name.toList with
  | nil =>
      rw [hletters] at hname
      cases hname
  | cons c cs =>
      refine ⟨c, cs, rfl, fun d hd => ?_⟩
      rw [hletters, Bool.and_eq_true] at hname
      have hletter := List.all_eq_true.mp hname.2 d hd
      rw [Bool.and_eq_true, bne_iff_ne] at hletter
      exact ⟨hletter.1, Escaped.isUnprintable_of_isGraphic hletter.2⟩

namespace Node

open CommandLine

variable {n m : Node} {path : List Nat}

/-! ## Positions -/

/-- The node at the end of a path of child indices. -/
def at? (n : Node) : List Nat → Option Node
  | [] => some n
  | i :: path =>
    match n.children[i]? with
    | some child => child.at? path
    | none => none

mutual

/-- The nodes of a tree with their paths: the root, then the nodes of one child after the other. -/
def positions : Node → List (List Nat × Node)
  | mk kind payload children => ([], mk kind payload children) :: forestPositions 0 children

/-- The nodes of a list of trees. Their paths start with the index of their tree, counted from
`first` on. -/
def forestPositions (first : Nat) : List Node → List (List Nat × Node)
  | [] => []
  | n :: ns => n.positions.map (Prod.map (first :: ·) id) ++ forestPositions (first + 1) ns

end

mutual

/-- The nodes without children: those of one child after the other, or the node itself. -/
def fringe : Node → List Node
  | mk kind payload [] => [mk kind payload []]
  | mk _ _ (child :: children) => forestFringe (child :: children)

/-- The nodes without children of a list of trees. -/
def forestFringe : List Node → List Node
  | [] => []
  | n :: ns => n.fringe ++ forestFringe ns

end

theorem at?_cons {i : Nat} :
    n.at? (i :: path) = some m ↔
      ∃ child, n.children[i]? = some child ∧ child.at? path = some m := by
  rw [at?]
  split <;> simp_all

mutual

/-- The nodes with their paths are those that the paths lead to. -/
theorem mem_positions_iff : (n : Node) → {path : List Nat} →
    ((path, m) ∈ n.positions ↔ n.at? path = some m)
  | mk kind payload children, [] => by
      have hbelow : ([], m) ∉ forestPositions 0 children := by
        intro h
        obtain ⟨i, rest, child, hpath, -, -⟩ := (mem_forestPositions_iff 0 children).mp h
        cases hpath
      rw [positions, List.mem_cons, at?, Option.some.injEq]
      simp [hbelow, eq_comm]
  | mk kind payload children, i :: path => by
      rw [positions, List.mem_cons, mem_forestPositions_iff 0 children, at?_cons]
      simp [Node.children]

theorem mem_forestPositions_iff (first : Nat) : (ns : List Node) → {path : List Nat} →
    ((path, m) ∈ forestPositions first ns ↔
      ∃ i rest child, path = (first + i) :: rest ∧ ns[i]? = some child ∧
        child.at? rest = some m)
  | [], _ => by simp [forestPositions]
  | n :: ns, path => by
      rw [forestPositions, List.mem_append, mem_forestPositions_iff (first + 1) ns]
      constructor
      · rintro (h | ⟨i, rest, child, rfl, hchild, hrest⟩)
        · obtain ⟨⟨rest, w⟩, hrest, heq⟩ := List.mem_map.mp h
          obtain ⟨rfl, hw⟩ := Prod.mk.inj heq
          exact ⟨0, rest, n, rfl, rfl, (mem_positions_iff n).mp (hw ▸ hrest)⟩
        · exact ⟨i + 1, rest, child, by rw [Nat.add_assoc, Nat.add_comm 1], hchild, hrest⟩
      · rintro ⟨i, rest, child, rfl, hchild, hrest⟩
        cases i with
        | zero =>
            cases hchild
            exact Or.inl (List.mem_map.mpr ⟨(rest, m), (mem_positions_iff n).mpr hrest, rfl⟩)
        | succ i =>
            exact Or.inr ⟨i, rest, child, by rw [Nat.add_assoc, Nat.add_comm 1], hchild, hrest⟩

end

mutual

/-- The paths are in order, so none of them comes twice. -/
theorem pairwise_positions : (n : Node) →
    n.positions.Pairwise fun p q => List.Lex (· < ·) p.1 q.1
  | mk kind payload children => by
      rw [positions, List.pairwise_cons]
      refine ⟨?_, pairwise_forestPositions 0 children⟩
      rintro ⟨path, m⟩ h
      obtain ⟨i, rest, child, rfl, -, -⟩ := (mem_forestPositions_iff 0 children).mp h
      exact List.Lex.nil

theorem pairwise_forestPositions (first : Nat) : (ns : List Node) →
    (forestPositions first ns).Pairwise fun p q => List.Lex (· < ·) p.1 q.1
  | [] => List.Pairwise.nil
  | n :: ns => by
      rw [forestPositions, List.pairwise_append, List.pairwise_map]
      refine ⟨?_, pairwise_forestPositions (first + 1) ns, ?_⟩
      · exact (pairwise_positions n).imp List.Lex.cons
      · rintro p hp ⟨path, m⟩ hq
        obtain ⟨q, -, rfl⟩ := List.mem_map.mp hp
        obtain ⟨i, rest, child, rfl, -, -⟩ := (mem_forestPositions_iff (first + 1) ns).mp hq
        exact List.Lex.rel (by omega)

end

/-! ## Walks -/

mutual

theorem map_snd_positions : (n : Node) → n.positions.map Prod.snd = n.descendants
  | mk kind payload children => by
      rw [positions, List.map_cons, map_snd_forestPositions, descendants_eq, Node.children]

theorem map_snd_forestPositions (first : Nat) : (ns : List Node) →
    (forestPositions first ns).map Prod.snd = ns.flatMap descendants
  | [] => rfl
  | n :: ns => by
      rw [forestPositions, List.map_append, List.map_map, List.flatMap_cons,
        map_snd_forestPositions (first + 1) ns, ← map_snd_positions n]
      rfl

end

mutual

theorem leaves_eq : (n : Node) → n.leaves = n.fringe
  | mk kind payload [] => by
      rw [leaves, descendants_eq, fringe]
      rfl
  | mk kind payload (child :: children) => by
      rw [leaves, descendants_eq, fringe, List.filter_cons_of_neg (by simp [isLeaf, Node.children])]
      exact filter_isLeaf_eq (child :: children)

theorem filter_isLeaf_eq : (ns : List Node) →
    (ns.flatMap descendants).filter isLeaf = forestFringe ns
  | [] => rfl
  | n :: ns => by
      rw [List.flatMap_cons, List.filter_append, filter_isLeaf_eq ns, forestFringe, ← leaves_eq n,
        leaves]

end

/-! ## Lines -/

/-- What the line of a node shows behind its indentation. -/
def shown (n : Node) : List Char := (line 0 n.kind n.payload).toList

theorem toList_line (depth : Nat) (kind : NodeKind) (payload : Payload) :
    (line depth kind payload).toList =
      List.replicate (2 * depth) ' ' ++ (line 0 kind payload).toList := by
  simp [line]

mutual

/-- A line for each node, in the order of the nodes, by the length of its path further in. -/
theorem lines_eq (depth : Nat) : (n : Node) → (n.lines depth).map String.toList =
    n.positions.map fun p => List.replicate (2 * (depth + p.1.length)) ' ' ++ p.2.shown
  | mk kind payload children => by
      rw [lines, positions, List.map_cons, List.map_cons, forestLines_eq depth 0 children, toList_line]
      rfl

theorem forestLines_eq (depth first : Nat) : (ns : List Node) →
    (forestLines (depth + 1) ns).map String.toList =
      (forestPositions first ns).map fun p =>
        List.replicate (2 * (depth + p.1.length)) ' ' ++ p.2.shown
  | [] => rfl
  | n :: ns => by
      have hdepth (rest : List Nat) :
          depth + 1 + rest.length = depth + (first :: rest).length := by
        rw [List.length_cons]
        omega
      rw [forestLines, forestPositions, List.map_append, List.map_append, List.map_map,
        lines_eq (depth + 1) n, forestLines_eq depth (first + 1) ns]
      simp only [hdepth]
      rfl

end

theorem shown_eq (n : Node) :
    n.shown = n.kind.name.toList ++
      if n.text.isEmpty then [] else ' ' :: (Escaped.quoted n.text).toList := by
  by_cases h : n.payload.spelling.isEmpty = true <;> simp [shown, line, text, h]

/-- No line starts with more spaces than its indentation has. -/
theorem exists_shown_eq (n : Node) : ∃ c cs, n.shown = c :: cs ∧ c ≠ ' ' := by
  obtain ⟨c, cs, hname, hletters⟩ := n.kind.name_eq_cons
  rw [shown_eq, hname]
  exact ⟨c, _, rfl, (hletters c List.mem_cons_self).1⟩

theorem isUnprintable_of_mem_shown {d : Char} (h : d ∈ n.shown) :
    Escaped.isUnprintable d = false := by
  rw [shown_eq, List.mem_append] at h
  rcases h with h | h
  · obtain ⟨c, cs, hname, hletters⟩ := n.kind.name_eq_cons
    rw [hname] at h
    exact (hletters d h).2
  · split at h
    · cases h
    · rcases List.mem_cons.mp h with rfl | h
      · exact Escaped.isUnprintable_of_isGraphic rfl
      · exact Escaped.isUnprintable_of_mem_quoted h

/-- What a node shows breaks no line, whatever its text holds. -/
theorem not_mem_controlPoints_of_mem_shown {d : Char} (h : d ∈ n.shown) :
    d.toNat ∉ Escaped.controlPoints := by
  intro hcontrol
  have hprintable := isUnprintable_of_mem_shown h
  rw [Escaped.isUnprintable_of_mem_controlPoints hcontrol] at hprintable
  cases hprintable

/-- Lines without line breaks are found again in what is written. -/
theorem splitOn_written {ls : List String} (h : ∀ l ∈ ls, '\n' ∉ l.toList) :
    (written ls).toList.splitOn '\n' = ls.map String.toList ++ [[]] := by
  induction ls with
  | nil => rfl
  | cons l ls ih =>
      obtain ⟨hl, hls⟩ := List.forall_mem_cons.mp h
      have hwritten : (written (l :: ls)).toList = l.toList ++ '\n' :: (written ls).toList := by
        simp [written, String.toList_join]
      have hbreak : ∀ c ∈ l.toList, (c == '\n') = false := by
        rintro c hc
        rw [beq_eq_false_iff_ne]
        rintro rfl
        exact hl hc
      rw [hwritten, List.splitOn_eq_splitOnP,
        List.splitOnP_append_cons_of_forall_mem hbreak '\n' (beq_self_eq_true _),
        ← List.splitOn_eq_splitOnP, ih hls]
      rfl

/-- Every node of a tree stands at one path, and the walk from the root on comes to all of them in the
order of their paths. The leaves are the ends of the tree from left to right. In the written text each
node has one line, in the order of the walk: two spaces for each step of its path, and then what it
shows, which starts with no space and holds neither line breaks nor control characters. -/
theorem walks_agree (n : Node) :
    n.descendants = n.positions.map Prod.snd ∧ n.descendants.head? = some n ∧
      (∀ path m, (path, m) ∈ n.positions ↔ n.at? path = some m) ∧
      (n.positions.Pairwise fun p q => List.Lex (· < ·) p.1 q.1) ∧
      n.leaves = n.fringe ∧
      (written (n.lines 0)).toList.splitOn '\n' =
        (n.positions.map fun p => List.replicate (2 * p.1.length) ' ' ++ p.2.shown) ++ [[]] ∧
      ∀ m ∈ n.descendants, (∃ c cs, m.shown = c :: cs ∧ c ≠ ' ') ∧
        ∀ d ∈ m.shown, d.toNat ∉ Escaped.controlPoints := by
  have hlines := lines_eq 0 n
  simp only [Nat.zero_add] at hlines
  have hbreaks : ∀ l ∈ n.lines 0, '\n' ∉ l.toList := by
    intro l hl hbreak
    have hmem := List.mem_map_of_mem (f := String.toList) hl
    rw [hlines, List.mem_map] at hmem
    obtain ⟨p, -, hp⟩ := hmem
    rw [← hp, List.mem_append, List.mem_replicate] at hbreak
    rcases hbreak with ⟨-, hspace⟩ | hshown
    · exact absurd hspace (by decide)
    · exact not_mem_controlPoints_of_mem_shown hshown (by decide)
  refine ⟨(map_snd_positions n).symm, ?_, fun path m => mem_positions_iff n, pairwise_positions n,
    leaves_eq n, ?_, fun m _ => ⟨m.exists_shown_eq, fun d => not_mem_controlPoints_of_mem_shown⟩⟩
  · rw [descendants_eq, List.head?_cons]
  · rw [splitOn_written hbreaks, hlines]

end Node

end SqlCommand
