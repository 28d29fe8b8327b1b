import ArityCheck.Proofs.Except
import ArityCheck.Proofs.FileSystem.Walk
import ArityCheck.Proofs.Path.Below

/-! Files by the names that lead to them.

What a walk finds below a folder is reached from there by names (`Walk.exists_names_of_mem_files`).
A walk that begins with a file finds that file alone, by no name at all. A separator after the path
of a file asks for a folder, so nothing can be read there (`read_slash`). -/
namespace ArityCheck

namespace Walk

/-- **A walk reaches its files by names**, and not without any unless it begins with the file. -/
theorem exists_names_of_mem_files {node : Node} (h : node.WellFormed) {respect : Bool}
    {levels : List Level} {path q : Path} (hq : q ∈ files respect levels path node) :
    ∃ names, (∀ name ∈ names, Path.IsName name) ∧ path.under names = q ∧
      (node.isFolder = true → names ≠ []) := by
  induction h generalizing levels path with
  | file content =>
    rw [files, List.mem_singleton] at hq
    exact ⟨[], List.forall_mem_nil _, hq.symm, fun hfolder => absurd hfolder Bool.false_ne_true⟩
  | folder entries distinct named below ih =>
    rw [files] at hq
    obtain ⟨e, he, hq⟩ := mem_entryFiles hq
    obtain ⟨names, hnames, hunder, -⟩ := ih e he hq
    exact ⟨e.1 :: names, List.forall_mem_cons.mpr ⟨named e he, hnames⟩, hunder,
      fun _ => List.cons_ne_nil _ _⟩

end Walk

/-! ### Separators at the end -/

/-- Only a folder can be followed to where it is. -/
theorem Place.follow_empty (p : Place) :
    p.follow "" = if p.node.isFolder then .ok p else .error .notDirectory := by
  rw [Place.follow]
  cases p.node with
  | file content => rfl
  | folder entries => rfl

namespace FileSystem

variable {fs : FileSystem} {p : Path} {place : Place}

theorem text_ne_empty_of_resolve (h : fs.resolve p = .ok place) : p.text ≠ "" := by
  intro hempty
  rw [resolve, if_pos (by simp [hempty])] at h
  cases h

theorem foldlM_follow_slash (text : String) (start : Place) :
    (Path.innerSegments ⟨text ++ "/"⟩).foldlM Place.follow start =
      (Path.innerSegments ⟨text⟩).foldlM Place.follow start >>= fun place => place.follow "" := by
  rw [Path.innerSegments_slash, List.foldlM_append]
  simp

/-- A separator at the end asks for a folder. -/
theorem resolve_slash (hp : p.text ≠ "") :
    fs.resolve ⟨p.text ++ "/"⟩ = fs.resolve p >>= fun place => place.follow "" := by
  rw [resolve, resolve, if_neg (by simp), if_neg (by simpa using hp), absolute,
    Path.join_slash _ hp, foldlM_follow_slash]
  rfl

/-- The path of a file does not end with a separator. -/
theorem getLast?_ne_slash (h : fs.resolve p = .ok place) (hfile : place.node.isFolder = false) :
    p.text.toList.getLast? ≠ some '/' := by
  intro hslash
  obtain ⟨l, hl⟩ := List.getLast?_eq_some_iff.mp hslash
  obtain ⟨text⟩ := p
  obtain rfl : text = String.ofList l ++ "/" := by simp [← String.toList_inj, hl]
  have habsolute : ∃ whole, fs.absolute ⟨String.ofList l ++ "/"⟩ = ⟨whole ++ "/"⟩ := by
    by_cases hempty : String.ofList l = ""
    · exact ⟨"", by rw [hempty]; rfl⟩
    · exact ⟨_, Path.join_slash fs.cwd (q := ⟨String.ofList l⟩) hempty⟩
  obtain ⟨whole, hwhole⟩ := habsolute
  rw [resolve, if_neg (by simp), hwhole, foldlM_follow_slash] at h
  obtain ⟨start, -, h⟩ := bind_eq_ok_iff.mp h
  rw [Place.follow_empty] at h
  split at h
  · next hfolder =>
    obtain rfl := Except.ok.inj h
    rw [hfile] at hfolder
    cases hfolder
  · cases h

/-- **Nothing can be read at the path of a file with a separator after it.** -/
theorem read_slash (h : fs.resolve p = .ok place) (hfile : place.node.isFolder = false) :
    fs.read ⟨p.text ++ "/"⟩ = .error .notDirectory := by
  rw [read, resolve_slash (text_ne_empty_of_resolve h), h]
  show (place.follow "" >>= fun _ => _) = _
  rw [Place.follow_empty, hfile]
  rfl

end FileSystem

end ArityCheck
