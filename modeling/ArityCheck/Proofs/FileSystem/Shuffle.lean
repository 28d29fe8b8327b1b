import ArityCheck.Proofs.FileSystem.Walk
import Mathlib.Data.List.Forall2

/-! The order in which folders list their entries.

`Shuffled` relates two trees of which one lists the entries of some folders in another order, at
any depth. Nothing that is read by name tells them apart: a name leads to the same entry up to such
a change (`Node.Shuffled.inversion`), so every list of what to ignore and every file reads the same
(`Node.Shuffled.content?`, `FileSystem.Shuffled.read`). A walk goes by the order, so it finds the
same files in another order (`FileSystem.Shuffled.walk`). -/
namespace ArityCheck

/-- The same tree with the entries of its folders in another order. -/
inductive Node.Shuffled : Node → Node → Prop
  | refl (n : Node) : Shuffled n n
  | folder {entries entries' : List (String × Node)} (h : entries.Perm entries') :
      Shuffled (.folder entries) (.folder entries')
  | entry (before : List (String × Node)) (name : String) {n n' : Node}
      (after : List (String × Node)) (h : Shuffled n n') :
      Shuffled (.folder (before ++ (name, n) :: after)) (.folder (before ++ (name, n') :: after))
  | trans {n m n' : Node} (h : Shuffled n m) (h' : Shuffled m n') : Shuffled n n'

namespace Node

/-! ### Names -/

/-- Where names are different, an entry is found by its name. -/
theorem find?_eq_some_iff {entries : List (String × Node)}
    (distinct : (entries.map Prod.fst).Nodup) {name : String} {node : Node} :
    find? name entries = some node ↔ (name, node) ∈ entries := by
  refine ⟨mem_of_find?, fun h => ?_⟩
  induction entries with
  | nil => nomatch h
  | cons e entries ih =>
    obtain ⟨k, n⟩ := e
    rw [List.map_cons, List.nodup_cons] at distinct
    rcases List.mem_cons.mp h with heq | hmem
    · obtain ⟨rfl, rfl⟩ := Prod.mk.inj heq
      exact if_pos rfl
    · have hne : k ≠ name := by
        rintro rfl
        exact distinct.1 (List.mem_map.mpr ⟨_, hmem, rfl⟩)
      rw [find?, if_neg hne]
      exact ih distinct.2 hmem

theorem find?_perm {entries entries' : List (String × Node)} (h : entries.Perm entries')
    (distinct : (entries.map Prod.fst).Nodup) (name : String) :
    find? name entries' = find? name entries := by
  have distinct' : (entries'.map Prod.fst).Nodup := (h.map Prod.fst).nodup_iff.mp distinct
  apply Option.ext
  intro node
  rw [find?_eq_some_iff distinct, find?_eq_some_iff distinct', h.mem_iff]

theorem find?_append (name : String) (xs ys : List (String × Node)) :
    find? name (xs ++ ys) = (find? name xs).or (find? name ys) := by
  induction xs with
  | nil => rfl
  | cons e xs ih =>
    obtain ⟨k, n⟩ := e
    rw [List.cons_append, find?, find?, ih]
    split <;> rfl

/-- Nothing was found in either tree, or the same entry up to the order of what lies below. -/
def FoundAlike (x x' : Option Node) : Prop :=
  x = none ∧ x' = none ∨ ∃ n n', x = some n ∧ x' = some n' ∧ n.Shuffled n'

theorem FoundAlike.refl (x : Option Node) : FoundAlike x x := by
  cases x with
  | none => exact .inl ⟨rfl, rfl⟩
  | some n => exact .inr ⟨n, n, rfl, rfl, .refl n⟩

theorem FoundAlike.trans {x y z : Option Node} (h : FoundAlike x y) (h' : FoundAlike y z) :
    FoundAlike x z := by
  rcases h with ⟨rfl, rfl⟩ | ⟨n, m, rfl, rfl, hnm⟩
  · exact h'
  · rcases h' with ⟨heq, -⟩ | ⟨_, n', heq, rfl, hmn⟩
    · nomatch heq
    · obtain rfl := Option.some.inj heq
      exact .inr ⟨n, n', rfl, rfl, hnm.trans hmn⟩

namespace Shuffled

variable {n n' : Node}

theorem wellFormed (h : n.Shuffled n') (hn : n.WellFormed) : n'.WellFormed := by
  induction h with
  | refl n => exact hn
  | folder h =>
    obtain ⟨distinct, named, below⟩ := hn.entries
    exact .folder _ ((h.map Prod.fst).nodup_iff.mp distinct)
      (fun e he => named e (h.mem_iff.mpr he)) (fun e he => below e (h.mem_iff.mpr he))
  | entry before name after h ih =>
    obtain ⟨distinct, named, below⟩ := hn.entries
    simp only [Node.entries, List.forall_mem_append, List.forall_mem_cons] at named below
    refine .folder _ (by simpa [Node.entries] using distinct) ?_ ?_
    · simpa only [List.forall_mem_append, List.forall_mem_cons] using named
    · simp only [List.forall_mem_append, List.forall_mem_cons]
      exact ⟨below.1, ih below.2.1, below.2.2⟩
  | trans h h' ih ih' => exact ih' (ih hn)

/-- **A name leads to the same entry**, up to the order of what lies below it. -/
theorem inversion (h : n.Shuffled n') (hn : n.WellFormed) :
    (∃ content, n = .file content ∧ n' = .file content) ∨
      ∃ entries entries', n = .folder entries ∧ n' = .folder entries' ∧
        ∀ name, FoundAlike (find? name entries) (find? name entries') := by
  induction h with
  | refl n =>
    cases n with
    | file content => exact .inl ⟨content, rfl, rfl⟩
    | folder entries => exact .inr ⟨entries, entries, rfl, rfl, fun name => .refl _⟩
  | @folder entries entries' h =>
    refine .inr ⟨entries, entries', rfl, rfl, fun name => ?_⟩
    rw [find?_perm h hn.entries.1]
    exact .refl _
  | @entry before name n n' after h ih =>
    refine .inr ⟨_, _, rfl, rfl, fun k => ?_⟩
    rw [find?_append, find?_append, find?, find?]
    cases find? k before with
    | some m => exact .refl _
    | none =>
      rw [Option.none_or, Option.none_or]
      split
      · exact .inr ⟨n, n', rfl, rfl, h⟩
      · exact .refl _
  | @trans n m n' h h' ih ih' =>
    rcases ih hn with ⟨content, rfl, rfl⟩ | ⟨entries, middle, rfl, rfl, hfind⟩
    · exact ih' (h.wellFormed hn)
    · rcases ih' (h.wellFormed hn) with ⟨content, heq, -⟩ | ⟨_, entries', heq, rfl, hfind'⟩
      · nomatch heq
      · obtain rfl := Node.folder.inj heq
        exact .inr ⟨entries, entries', rfl, rfl, fun name => (hfind name).trans (hfind' name)⟩

theorem isFolder (h : n.Shuffled n') (hn : n.WellFormed) : n'.isFolder = n.isFolder := by
  rcases h.inversion hn with ⟨content, rfl, rfl⟩ | ⟨entries, entries', rfl, rfl, -⟩ <;> rfl

/-- What lies at some names below reads the same. -/
theorem content? (h : n.Shuffled n') (hn : n.WellFormed) (names : List String) :
    n'.content? names = n.content? names := by
  induction names generalizing n n' with
  | nil =>
    rcases h.inversion hn with ⟨content, rfl, rfl⟩ | ⟨entries, entries', rfl, rfl, -⟩ <;> rfl
  | cons name names ih =>
    rcases h.inversion hn with ⟨content, rfl, rfl⟩ | ⟨entries, entries', rfl, rfl, hfind⟩
    · rfl
    · simp only [Node.content?, child?]
      rcases hfind name with ⟨hnone, hnone'⟩ | ⟨c, c', hsome, hsome', hc⟩
      · rw [hnone, hnone']
      · rw [hsome, hsome']
        exact ih hc (hn.entries.2.2 _ (mem_of_find? hsome))

end Shuffled

end Node

/-! ### Walking -/

namespace Walk

variable {n n' : Node}

theorem level_shuffled (h : n.Shuffled n') (hn : n.WellFormed) :
    Level.ofFolder n' = Level.ofFolder n := by
  simp only [Level.ofFolder, entriesAt, h.content? hn]

/-- **A walk finds the same files**, in another order. -/
theorem files_shuffled (h : n.Shuffled n') (hn : n.WellFormed) (respect : Bool)
    (levels : List Level) (path : Path) :
    (files respect levels path n').Perm (files respect levels path n) := by
  induction h generalizing levels path with
  | refl n => exact .refl _
  | folder h =>
    rw [files, files, level_shuffled (.folder h) hn, entryFiles_eq_flatMap, entryFiles_eq_flatMap]
    exact h.symm.flatMap_right _
  | @entry before name n n' after h ih =>
    have hchild : n.WellFormed :=
      hn.entries.2.2 _ (List.mem_append_right before List.mem_cons_self)
    rw [files, files, level_shuffled (.entry before name after h) hn]
    generalize (if respect then _ else _ : List Level) = levels
    rw [entryFiles_eq_flatMap, entryFiles_eq_flatMap, List.flatMap_append, List.flatMap_append,
      List.flatMap_cons, List.flatMap_cons]
    refine (List.Perm.append_right _ ?_).append_left _
    dsimp only
    rw [h.isFolder hchild]
    split
    · exact .refl _
    · exact ih hchild _ _
  | trans h h' ih ih' => exact (ih' (h.wellFormed hn) levels path).trans (ih hn levels path)

/-- Folders that are shuffled have the same lists of what to ignore. -/
theorem levelsAbove_shuffled {holders holders' : List (String × Node)}
    (h : List.Forall₂ (fun e e' => e'.1 = e.1 ∧ e.2.Shuffled e'.2) holders holders')
    (hwf : ∀ e ∈ holders, e.2.WellFormed) (name : String) :
    levelsAbove name holders' = levelsAbove name holders := by
  induction h generalizing name with
  | nil => rfl
  | @cons e e' holders holders' hhead htail ih =>
    obtain ⟨holder, node⟩ := e
    obtain ⟨holder', node'⟩ := e'
    obtain ⟨rfl, hnode⟩ := hhead
    rw [List.forall_mem_cons] at hwf
    rw [levelsAbove, levelsAbove, level_shuffled hnode hwf.1, ih hwf.2]

end Walk

/-! ### Following a path -/

namespace Place

/-- The same place in a tree that is shuffled. -/
structure Shuffled (p p' : Place) : Prop where
  name : p'.name = p.name
  node : p.node.Shuffled p'.node
  holders : List.Forall₂ (fun e e' => e'.1 = e.1 ∧ e.2.Shuffled e'.2) p.holders p'.holders

/-- A path fails to lead anywhere in both trees and for the same reason, or it leads to the same
place. -/
def ReachedAlike (x x' : Except FileFault Place) : Prop :=
  (∃ fault, x = .error fault ∧ x' = .error fault) ∨
    ∃ p p', x = .ok p ∧ x' = .ok p' ∧ p.Shuffled p' ∧ p.WellFormed

theorem Shuffled.follow {p p' : Place} (h : p.Shuffled p') (hp : p.WellFormed)
    (segment : String) : ReachedAlike (p.follow segment) (p'.follow segment) := by
  have hwf : ∀ q, p.follow segment = .ok q → q.WellFormed := fun q hq => hp.follow hq
  obtain ⟨name, node, holders⟩ := p
  obtain ⟨name', node', holders'⟩ := p'
  obtain ⟨hname, hnode, hholders⟩ := h
  obtain rfl : name' = name := hname
  rcases hnode.inversion hp.node with ⟨content, rfl, rfl⟩ | ⟨entries, entries', rfl, rfl, hfind⟩
  · exact .inl ⟨.notDirectory, rfl, rfl⟩
  · simp only [Place.follow] at hwf ⊢
    split at hwf
    next hhere =>
      rw [if_pos hhere, if_pos hhere]
      exact .inr ⟨_, _, rfl, rfl, ⟨rfl, hnode, hholders⟩, hp⟩
    next hhere =>
      rw [if_neg hhere, if_neg hhere]
      split at hwf
      next hup =>
        rw [if_pos hup, if_pos hup]
        cases hholders with
        | nil => exact .inr ⟨_, _, rfl, rfl, ⟨rfl, hnode, .nil⟩, hp⟩
        | cons hhead htail =>
          exact .inr ⟨_, _, rfl, rfl, ⟨hhead.1, hhead.2, htail⟩, hwf _ rfl⟩
      next hup =>
        rw [if_neg hup, if_neg hup]
        rcases hfind segment with ⟨hnone, hnone'⟩ | ⟨c, c', hsome, hsome', hc⟩
        · rw [hnone, hnone']
          exact .inl ⟨.notFound, rfl, rfl⟩
        · rw [hsome] at hwf
          rw [hsome, hsome']
          exact .inr ⟨_, _, rfl, rfl, ⟨rfl, hc, .cons ⟨rfl, hnode⟩ hholders⟩, hwf _ rfl⟩

theorem Shuffled.followAll {p p' : Place} (h : p.Shuffled p') (hp : p.WellFormed)
    (segments : List String) :
    ReachedAlike (segments.foldlM Place.follow p) (segments.foldlM Place.follow p') := by
  induction segments generalizing p p' with
  | nil => exact .inr ⟨p, p', rfl, rfl, h, hp⟩
  | cons segment segments ih =>
    rw [List.foldlM_cons, List.foldlM_cons]
    rcases h.follow hp segment with ⟨fault, hq, hq'⟩ | ⟨q, q', hq, hq', hshuffled, hwf⟩
    · rw [hq, hq']
      exact .inl ⟨fault, rfl, rfl⟩
    · rw [hq, hq']
      exact ih hshuffled hwf

end Place

/-! ### File systems -/

/-- The same files, with the entries of folders in another order. -/
structure FileSystem.Shuffled (fs fs' : FileSystem) : Prop where
  cwd : fs'.cwd = fs.cwd
  root : fs.root.Shuffled fs'.root

namespace FileSystem.Shuffled

variable {fs fs' : FileSystem} (h : fs.Shuffled fs') (hfs : fs.WellFormed)

include h hfs

theorem resolve (p : Path) : Place.ReachedAlike (fs.resolve p) (fs'.resolve p) := by
  have hroot : (Place.root fs.root).Shuffled (.root fs'.root) := ⟨rfl, h.root, .nil⟩
  rw [FileSystem.resolve, FileSystem.resolve, absolute, absolute, h.cwd]
  split
  · exact .inl ⟨.notFound, rfl, rfl⟩
  · exact hroot.followAll ⟨hfs, by simp [Place.root]⟩ _

/-- **Every file reads the same.** -/
theorem read (p : Path) : fs'.read p = fs.read p := by
  rw [FileSystem.read, FileSystem.read]
  rcases h.resolve hfs p with ⟨fault, hq, hq'⟩ | ⟨q, q', hq, hq', hshuffled, hwf⟩
  · rw [hq, hq']
  · rw [hq, hq']
    simp only [bind, Except.bind]
    rcases hshuffled.node.inversion hwf.node with
      ⟨content, hnode, hnode'⟩ | ⟨entries, entries', hnode, hnode', -⟩ <;> rw [hnode, hnode']

/-- **A walk fails for the same reason or finds the same files**, in another order. -/
theorem walk (p : Path) (respect : Bool) :
    (∃ fault, fs.walk p respect = .error fault ∧ fs'.walk p respect = .error fault) ∨
      ∃ found found', fs.walk p respect = .ok found ∧ fs'.walk p respect = .ok found' ∧
        found'.Perm found := by
  rw [FileSystem.walk, FileSystem.walk]
  rcases h.resolve hfs p with ⟨fault, hq, hq'⟩ | ⟨q, q', hq, hq', hshuffled, hwf⟩
  · rw [hq, hq']
    exact .inl ⟨fault, rfl, rfl⟩
  · rw [hq, hq']
    refine .inr ⟨_, _, rfl, rfl, ?_⟩
    rw [hshuffled.name, Walk.levelsAbove_shuffled hshuffled.holders hwf.holders]
    exact Walk.files_shuffled hshuffled.node hwf.node _ _ _

end FileSystem.Shuffled

end ArityCheck
