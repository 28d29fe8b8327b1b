import ArityCheck.Proofs.FileSystem.Names
import ArityCheck.Proofs.Path.Ancestors

/-! Places by the names that lead to them from the root.

There are no links, so going up undoes the last name: the names of the place that a path leads to
are those of the path with every `..` taken together with the name before it (`Path.resolved`), and
that can be read off the path (`FileSystem.reached_of_resolve`). A folder holds a file if the path
of the folder with the name joined to it leads to one (`FileSystem.isFile_join_iff`). -/
namespace ArityCheck

/-! ### Paths without steps up -/

namespace Path

/-- The names that lead to where a component goes from a place with the given names. Above the root
there is the root. -/
def goOn (names : List String) : Component → List String
  | .root => []
  | .here => names
  | .up => names.dropLast
  | .name text => names ++ [text]

/-- The names from the root to where an absolute path leads. -/
def resolved (p : Path) : List String := p.components.foldl goOn []

end Path

/-! ### Following a path -/

/-- What lies at some names below a node. -/
def Node.at? (n : Node) : List String → Option Node
  | [] => some n
  | name :: names => (n.child? name).bind (·.at? names)

theorem Node.at?_concat (n : Node) (names : List String) (name : String) :
    n.at? (names ++ [name]) = (n.at? names).bind (·.child? name) := by
  induction names generalizing n with
  | nil =>
    show (n.child? name).bind some = _
    simp [at?]
  | cons first names ih =>
    simp only [List.cons_append, at?]
    cases n.child? first with
    | none => rfl
    | some child => exact ih child

/-- The place is reached from the root of a tree by some names. -/
inductive Place.Reached (root : Node) : List String → Place → Prop
  | root : Reached root [] (.root root)
  | child {names : List String} {p : Place} {name : String} {node : Node} (h : Reached root names p)
      (hchild : p.node.child? name = some node) :
      Reached root (names ++ [name]) ⟨name, node, (p.name, p.node) :: p.holders⟩

namespace Place

variable {root : Node} {names : List String} {p q : Place}

theorem Reached.at? (h : Reached root names p) : root.at? names = some p.node := by
  induction h with
  | root => rfl
  | child h hchild ih => rw [Node.at?_concat, ih, Option.bind_some, hchild]

/-- The place above. Above the root there is the root. -/
def up (p : Place) : Place :=
  match p.holders with
  | [] => p
  | (name, node) :: holders => ⟨name, node, holders⟩

/-- What a segment leads to, by the component that it stands for. Every segment needs a folder to
start from. -/
theorem follow_eq_ok_iff {segment : String} :
    p.follow segment = .ok q ↔ p.node.isFolder = true ∧
      (Component.ofInner? segment = none ∧ q = p ∨
        Component.ofInner? segment = some .up ∧ q = p.up ∨
        Component.ofInner? segment = some (.name segment) ∧
          ∃ node, p.node.child? segment = some node ∧
            q = ⟨segment, node, (p.name, p.node) :: p.holders⟩) := by
  obtain ⟨name, node, holders⟩ := p
  cases node with
  | file content => simp [Place.follow, Node.isFolder]
  | folder entries =>
    by_cases hsilent : segment = "" ∨ segment = "."
    · simp [Place.follow, Component.ofInner?, Node.isFolder, hsilent, eq_comm (a := q)]
    · by_cases hup : segment = ".."
      · subst hup
        cases holders with
        | nil => simp [Place.follow, Component.ofInner?, Node.isFolder, up, eq_comm (a := q)]
        | cons holder holders =>
          simp [Place.follow, Component.ofInner?, Node.isFolder, up, eq_comm (a := q)]
      · cases hfind : Node.find? segment entries with
        | none =>
          simp [Place.follow, Component.ofInner?, Node.isFolder, Node.child?, hsilent, hup, hfind]
        | some node =>
          simp [Place.follow, Component.ofInner?, Node.isFolder, Node.child?, hsilent, hup, hfind,
            eq_comm (a := q)]

theorem Reached.up (h : Reached root names p) : Reached root names.dropLast p.up := by
  cases h with
  | root => exact .root
  | child h hchild =>
    rw [List.dropLast_concat]
    exact h

/-- **One segment leads on by the component that it stands for.** -/
theorem Reached.follow (h : Reached root names p) {segment : String}
    (hfollow : p.follow segment = .ok q) :
    Reached root ((Component.ofInner? segment).elim names (Path.goOn names)) q := by
  obtain ⟨-, ⟨hs, rfl⟩ | ⟨hs, rfl⟩ | ⟨hs, node, hchild, rfl⟩⟩ := follow_eq_ok_iff.mp hfollow
  · rw [hs]
    exact h
  · rw [hs]
    exact h.up
  · rw [hs]
    exact .child h hchild

theorem Reached.followAll (h : Reached root names p) {segments : List String}
    (hfollow : segments.foldlM Place.follow p = .ok q) :
    Reached root ((segments.filterMap Component.ofInner?).foldl Path.goOn names) q := by
  induction segments generalizing names p with
  | nil =>
    obtain rfl := Except.ok.inj hfollow
    exact h
  | cons s segments ih =>
    rw [List.foldlM_cons] at hfollow
    obtain ⟨next, hnext, hfollow⟩ := bind_eq_ok_iff.mp hfollow
    have hrest := ih (h.follow hnext) hfollow
    cases hs : Component.ofInner? s with
    | none =>
      rw [hs] at hrest
      rwa [List.filterMap_cons_none hs]
    | some c =>
      rw [hs] at hrest
      rwa [List.filterMap_cons_some hs]

/-- A segment can be followed from a folder, if it is no name or one of something below. -/
theorem Reached.exists_follow (h : Reached root names p) (hfolder : p.node.isFolder = true)
    (segment : String) (hname : Component.ofInner? segment = some (.name segment) →
      ∃ node, root.at? (names ++ [segment]) = some node) :
    ∃ q, p.follow segment = .ok q := by
  simp only [follow_eq_ok_iff, hfolder, true_and]
  cases hs : Component.ofInner? segment with
  | none => exact ⟨p, .inl ⟨rfl, rfl⟩⟩
  | some c =>
    rcases Component.ofInner?_eq_some hs with rfl | rfl
    · exact ⟨p.up, .inr (.inl ⟨rfl, rfl⟩)⟩
    · obtain ⟨node, hnode⟩ := hname hs
      rw [Node.at?_concat, h.at?, Option.bind_some] at hnode
      exact ⟨_, .inr (.inr ⟨rfl, node, hnode, rfl⟩)⟩

/-- Segments can be followed if there is a folder wherever they lead. -/
theorem Reached.exists_followAll (h : Reached root names p) {segments : List String}
    (hfolders : ∀ front, front <+: segments.filterMap Component.ofInner? →
      ∃ entries, root.at? (front.foldl Path.goOn names) = some (.folder entries)) :
    ∃ q, segments.foldlM Place.follow p = .ok q := by
  induction segments generalizing names p with
  | nil => exact ⟨p, rfl⟩
  | cons s segments ih =>
    have hfolder : p.node.isFolder = true := by
      obtain ⟨entries, hentries⟩ := hfolders [] List.nil_prefix
      rw [Option.some.inj (h.at?.symm.trans hentries), Node.isFolder]
    obtain ⟨next, hnext⟩ := h.exists_follow hfolder s fun hs => by
      obtain ⟨entries, hentries⟩ := hfolders [.name s] (by simp [List.filterMap_cons_some hs])
      exact ⟨_, hentries⟩
    obtain ⟨q, hq⟩ := ih (h.follow hnext) fun front hfront => by
      cases hs : Component.ofInner? s with
      | none => exact hfolders front (by rwa [List.filterMap_cons_none hs])
      | some c =>
        refine hfolders (c :: front) ?_
        rw [List.filterMap_cons_some hs, List.cons_prefix_cons]
        exact ⟨rfl, hfront⟩
    refine ⟨q, ?_⟩
    rw [List.foldlM_cons, bind_eq_ok_iff]
    exact ⟨next, hnext, hq⟩

end Place

namespace FileSystem

variable {fs : FileSystem} {p dir : Path} {place : Place} {name : String}

theorem absolute_of_isAbsolute (fs : FileSystem) (hp : p.isAbsolute = true) : fs.absolute p = p :=
  Path.join_of_isAbsolute fs.cwd hp

theorem resolve_of_isAbsolute (fs : FileSystem) (hp : p.isAbsolute = true) :
    fs.resolve p = p.innerSegments.foldlM Place.follow (.root fs.root) := by
  have hne : p.text ≠ "" := by
    intro hempty
    simp [Path.isAbsolute, hempty] at hp
  rw [resolve, if_neg (by simpa using hne), absolute_of_isAbsolute fs hp]

/-- **A path leads to the place at its names, with every step up taken.** -/
theorem reached_of_resolve (hp : p.isAbsolute = true) (h : fs.resolve p = .ok place) :
    Place.Reached fs.root p.resolved place := by
  rw [resolve_of_isAbsolute fs hp] at h
  rw [Path.resolved, Path.components_of_isAbsolute hp]
  exact Place.Reached.root.followAll h

/-- A path leads somewhere if there is a folder wherever its beginnings lead. -/
theorem exists_resolve (fs : FileSystem) (hp : p.isAbsolute = true)
    (hfolders : ∀ front, front <+: p.components.tail →
      ∃ entries, fs.root.at? (front.foldl Path.goOn []) = some (.folder entries)) :
    ∃ place, fs.resolve p = .ok place := by
  rw [resolve_of_isAbsolute fs hp]
  rw [Path.components_of_isAbsolute hp] at hfolders
  exact Place.Reached.root.exists_followAll hfolders

/-! ### Files in folders -/

/-- The folder at a path holds a file of a name. -/
def Holds (fs : FileSystem) (dir : Path) (name : String) : Prop :=
  ∃ place content, fs.resolve dir = .ok place ∧ place.node.child? name = some (.file content)

theorem Holds.exists_at? (h : fs.Holds dir name) (hdir : dir.isAbsolute = true) :
    ∃ content, fs.root.at? (dir.resolved ++ [name]) = some (.file content) := by
  obtain ⟨place, content, hplace, hchild⟩ := h
  refine ⟨content, ?_⟩
  rw [Node.at?_concat, (reached_of_resolve hdir hplace).at?, Option.bind_some, hchild]

/-- A name joined to a folder is followed from there. -/
theorem resolve_join (hdir : dir.isAbsolute = true) (hname : Path.IsName name) {q : Place} :
    fs.resolve (dir.join ⟨name⟩) = .ok q ↔
      ∃ place, fs.resolve dir = .ok place ∧ place.follow name = .ok q := by
  have hne : dir.text ≠ "" := by
    intro hempty
    simp [Path.isAbsolute, hempty] at hdir
  obtain ⟨inner, hinner, hjoin⟩ := Path.exists_innerSegments_join hne hname.not_isAbsolute
  have hsegments : Path.segments ⟨name⟩ = [name] := by
    simp [Path.segments_eq, Path.splitSegments_of_not_mem hname.2.2.2]
  rw [hsegments] at hjoin
  rw [resolve_of_isAbsolute fs (Path.isAbsolute_join hdir ⟨name⟩), resolve_of_isAbsolute fs hdir,
    (List.cons.inj hjoin).2, List.foldlM_append]
  simp only [List.foldlM_cons, List.foldlM_nil, bind_pure, bind_eq_ok_iff]
  rcases hinner with hinner | hinner
  · rw [hinner]
  · -- A separator at the end of the folder needs a folder, as the name does.
    rw [hinner, List.foldlM_append]
    simp only [List.foldlM_cons, List.foldlM_nil, bind_pure, bind_eq_ok_iff]
    constructor
    · rintro ⟨place, hplace, hfollow⟩
      have hfolder := (Place.follow_eq_ok_iff.mp hfollow).1
      exact ⟨place, ⟨place, hplace, by rw [Place.follow_empty, if_pos hfolder]⟩, hfollow⟩
    · rintro ⟨place, ⟨start, hstart, hempty⟩, hfollow⟩
      rw [Place.follow_empty] at hempty
      split at hempty
      · obtain rfl := Except.ok.inj hempty
        exact ⟨start, hstart, hfollow⟩
      · cases hempty

/-- **The path of a folder with a name joined to it is that of a file exactly if the folder holds a
file of that name.** -/
theorem isFile_join_iff (hdir : dir.isAbsolute = true) (hname : Path.IsName name) :
    fs.isFile (dir.join ⟨name⟩) = true ↔ fs.Holds dir name := by
  have hisFile : fs.isFile (dir.join ⟨name⟩) = true ↔
      ∃ q, fs.resolve (dir.join ⟨name⟩) = .ok q ∧ q.node.isFile = true := by
    rw [isFile]
    cases fs.resolve (dir.join ⟨name⟩) with
    | error fault => simp
    | ok q => simp
  rw [hisFile]
  constructor
  · rintro ⟨q, hq, hfile⟩
    obtain ⟨place, hplace, hfollow⟩ := (resolve_join hdir hname).mp hq
    obtain ⟨-, ⟨hs, -⟩ | ⟨hs, -⟩ | ⟨-, node, hchild, rfl⟩⟩ := Place.follow_eq_ok_iff.mp hfollow
    · simp [hname.ofInner?] at hs
    · simp [hname.ofInner?] at hs
    · cases node with
      | file content => exact ⟨place, content, hplace, hchild⟩
      | folder entries => cases hfile
  · rintro ⟨place, content, hplace, hchild⟩
    have hfolder : place.node.isFolder = true := by
      cases hnode : place.node with
      | file bytes => simp [hnode, Node.child?] at hchild
      | folder entries => rfl
    have hfollow := Place.follow_eq_ok_iff.mpr
      ⟨hfolder, .inr (.inr ⟨hname.ofInner?, _, hchild, rfl⟩)⟩
    exact ⟨_, (resolve_join hdir hname).mpr ⟨place, hplace, hfollow⟩, rfl⟩

end FileSystem

end ArityCheck
