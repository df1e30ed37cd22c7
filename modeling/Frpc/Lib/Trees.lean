import Mathlib.Data.List.AList
import Mathlib.Tactic.Common

/-! # Trees of directories

A tree has nodes at paths, which are lists of names; a node is a directory, or a file with a value.
The root is a directory that is always there. `put` makes the directories on the way, and does not
replace a directory; `children` are the nodes one level below a path. What `put` changes is
described by `lookup` (`put_spec`), and for the children of one directory by
`lookup_put_of_not_below` and `lookup_put_child`. -/

namespace Frpc.Lib.Trees

variable {K V : Type*} [DecidableEq K]

/-- A node. -/
inductive Node (V : Type*) where
  | dir
  | file (value : V)

/-- A tree, without its root. -/
abbrev Tree (K V : Type*) := AList fun _ : List K => Node V

/-- Why a node is not put into a tree. -/
inductive Refused where
  /-- The path is the root. -/
  | root
  /-- There is a file on the way. -/
  | notDir
  /-- There is a directory at the path. -/
  | notFile

/-- Walk down from `pre`, and make the directories that are missing; there is no way past a file. -/
def walk (t : Tree K V) (pre : List K) : List K → Option (Tree K V)
  | [] => some t
  | k :: ks =>
    match t.lookup (pre ++ [k]) with
    | some (.file _) => none
    | some .dir => walk t (pre ++ [k]) ks
    | none => walk (t.insert (pre ++ [k]) .dir) (pre ++ [k]) ks

/-- Put a node into a tree. A file is replaced. -/
def put (t : Tree K V) (path : List K) (node : Node V) : Except Refused (Tree K V) :=
  if path = [] then .error .root
  else
    match walk t [] path.dropLast with
    | none => .error .notDir
    | some t' =>
      match t'.lookup path with
      | some .dir => .error .notFile
      | _ => .ok (t'.insert path node)

/-- The nodes one level below `dir`. -/
def children (t : Tree K V) (dir : List K) : List ((_ : List K) × Node V) :=
  t.entries.filter fun e => e.1 ≠ [] ∧ e.1.dropLast = dir

/-- The path is that of a node somewhere below `dir`. -/
def Below (dir path : List K) : Prop := ∃ k rest, path = dir ++ k :: rest

variable {t t' : Tree K V} {pre ks path dir q : List K} {node : Node V}

omit [DecidableEq K] in
theorem below_iff : Below dir path ↔ dir <+: path ∧ dir.length < path.length := by
  constructor
  · rintro ⟨k, rest, rfl⟩
    exact ⟨List.prefix_append _ _, by simp⟩
  · rintro ⟨⟨rest, rfl⟩, hlen⟩
    cases rest with
    | nil =>
      rw [List.append_nil] at hlen
      exact absurd hlen (lt_irrefl _)
    | cons k rest => exact ⟨k, rest, rfl⟩

instance (dir path : List K) : Decidable (Below dir path) := decidable_of_iff' _ below_iff

theorem mem_children {e : (_ : List K) × Node V} :
    e ∈ children t dir ↔ t.lookup e.1 = some e.2 ∧ ∃ k, e.1 = dir ++ [k] := by
  rw [children, List.mem_filter, decide_eq_true_iff]
  refine and_congr AList.mem_lookup_iff.symm ⟨fun ⟨hne, hdrop⟩ => ?_, ?_⟩
  · exact ⟨e.1.getLast hne, by rw [← hdrop, List.dropLast_append_getLast]⟩
  · rintro ⟨k, hk⟩
    rw [hk]
    simp

/-! ### Walking -/

theorem lookup_walk (h : walk t pre ks = some t') (q : List K) :
    t'.lookup q = t.lookup q ∨
      (t.lookup q = none ∧ t'.lookup q = some .dir ∧ q <+: pre ++ ks) := by
  induction ks generalizing t pre with
  | nil =>
    cases h
    exact Or.inl rfl
  | cons k ks ih =>
    have hstep : pre ++ k :: ks = pre ++ [k] ++ ks := by simp
    rw [hstep]
    rw [walk] at h
    split at h
    · cases h
    · exact ih h
    · rename_i hnone
      by_cases hq : q = pre ++ [k]
      · subst hq
        refine Or.inr ⟨hnone, ?_, List.prefix_append _ _⟩
        rcases ih h with hsame | ⟨hno, -, -⟩
        · rw [hsame, AList.lookup_insert]
        · rw [AList.lookup_insert] at hno
          cases hno
      · rcases ih h with hsame | ⟨hno, hdir, hpre⟩
        · exact Or.inl (hsame.trans (AList.lookup_insert_ne hq))
        · exact Or.inr ⟨(AList.lookup_insert_ne hq).symm.trans hno, hdir, hpre⟩

theorem lookup_walk_of_some (h : walk t pre ks = some t') (hq : t.lookup q = some node) :
    t'.lookup q = some node := by
  rcases lookup_walk h q with hsame | ⟨hno, -, -⟩
  · exact hsame.trans hq
  · rw [hq] at hno
    cases hno

theorem lookup_walk_end (h : walk t pre ks = some t') (hne : ks ≠ []) :
    t'.lookup (pre ++ ks) = some .dir := by
  induction ks generalizing t pre with
  | nil => exact absurd rfl hne
  | cons k ks ih =>
    have hstep : pre ++ k :: ks = pre ++ [k] ++ ks := by simp
    rw [hstep]
    -- the directory of this step is there, and the rest of the walk keeps it
    have hnext : ∀ {u : Tree K V}, walk u (pre ++ [k]) ks = some t' →
        u.lookup (pre ++ [k]) = some .dir → t'.lookup (pre ++ [k] ++ ks) = some .dir := by
      intro u hu hdir
      cases ks with
      | nil =>
        rw [List.append_nil]
        exact lookup_walk_of_some hu hdir
      | cons k' ks' => exact ih hu (List.cons_ne_nil _ _)
    rw [walk] at h
    split at h
    · cases h
    · rename_i hdir
      exact hnext h hdir
    · exact hnext h (AList.lookup_insert _)

/-! ### Putting -/

/-- **What `put` does.** The node is at its path, where no directory was; directories are added on
the way to it, and everything else is as before. -/
theorem put_spec (h : put t path node = .ok t') :
    t.lookup path ≠ some .dir ∧ t'.lookup path = some node ∧
      (∀ q, q ≠ path → t'.lookup q = t.lookup q ∨
        (t.lookup q = none ∧ t'.lookup q = some .dir ∧ q <+: path.dropLast)) ∧
      (path.dropLast = [] ∨ t'.lookup path.dropLast = some .dir) := by
  unfold put at h
  split_ifs at h with hroot
  split at h
  · cases h
  · rename_i u hwalk
    split at h
    · cases h
    · rename_i hno
      cases h
      refine ⟨fun hdir => hno (lookup_walk_of_some hwalk hdir), AList.lookup_insert _,
        fun q hq => ?_, ?_⟩
      · rw [AList.lookup_insert_ne hq]
        exact lookup_walk hwalk q
      · by_cases hnil : path.dropLast = []
        · exact Or.inl hnil
        · right
          have hne : path.dropLast ≠ path := fun heq => by
            have := congrArg List.length heq
            rw [List.length_dropLast] at this
            have := List.length_pos_of_ne_nil hroot
            omega
          rw [AList.lookup_insert_ne hne]
          exact lookup_walk_end hwalk hnil

theorem lookup_put_dir (h : put t path node = .ok t') (hdir : t.lookup dir = some .dir) :
    t'.lookup dir = some .dir := by
  obtain ⟨hno, -, hother, -⟩ := put_spec h
  have hne : dir ≠ path := fun heq => hno (heq ▸ hdir)
  rcases hother dir hne with hsame | ⟨-, hadded, -⟩
  · exact hsame.trans hdir
  · exact hadded

/-- A `put` that is not below a directory does not concern its children. -/
theorem lookup_put_of_not_below (h : put t path node = .ok t') (hnot : ¬ Below dir path) (k : K) :
    t'.lookup (dir ++ [k]) = t.lookup (dir ++ [k]) := by
  obtain ⟨-, -, hother, -⟩ := put_spec h
  have hne : dir ++ [k] ≠ path := fun heq => hnot ⟨k, [], heq.symm⟩
  rcases hother _ hne with hsame | ⟨-, -, hpre⟩
  · exact hsame
  · obtain ⟨rest, hrest⟩ := hpre.trans (List.dropLast_prefix path)
    exact absurd ⟨k, rest, by rw [← hrest]; simp⟩ hnot

theorem lookup_put_child {k : K} (h : put t (dir ++ [k]) node = .ok t') (k' : K) :
    t'.lookup (dir ++ [k']) = if k' = k then some node else t.lookup (dir ++ [k']) := by
  obtain ⟨-, hself, hother, -⟩ := put_spec h
  split_ifs with hk
  · rw [hk]
    exact hself
  · have hne : dir ++ [k'] ≠ dir ++ [k] := fun heq => hk (by simpa using heq)
    rcases hother _ hne with hsame | ⟨-, -, hpre⟩
    · exact hsame
    · have hlen := hpre.length_le
      rw [List.dropLast_concat, List.length_append, List.length_singleton] at hlen
      omega

end Frpc.Lib.Trees
