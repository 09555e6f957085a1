import ConcurrencyLint.Analyzer
import ConcurrencyLint.Proofs.Text.Pieces

/-!
# The files that a directory stands for

A walk may list its entries in any order. The files to analyse are always the same and come in
strictly increasing order of their path components.
-/

namespace ConcurrencyLint

/-! ## The order of components -/

theorem componentsLE_iff {xs ys : List String} :
    componentsLE xs ys = true ↔ xs < ys ∨ xs = ys := by
  fun_induction componentsLE xs ys with
  | case1 ys =>
    cases ys with
    | nil => exact iff_of_true rfl (.inr rfl)
    | cons y ys => exact iff_of_true rfl (.inl (List.nil_lt_cons y ys))
  | case2 x xs => simp
  | case3 x xs y ys ih =>
    rw [Bool.or_eq_true, decide_eq_true_eq, Bool.and_eq_true, beq_iff_eq, ih, List.cons_lt_cons_iff,
      List.cons.injEq, and_or_left, or_assoc]

theorem componentsLE_total (xs ys : List String) :
    (componentsLE xs ys || componentsLE ys xs) = true := by
  rw [Bool.or_eq_true, componentsLE_iff, componentsLE_iff]
  exact (List.le_total xs ys).imp List.le_iff_lt_or_eq.1 List.le_iff_lt_or_eq.1

theorem componentsLE_trans {xs ys zs : List String} (h : componentsLE xs ys = true)
    (h' : componentsLE ys zs = true) : componentsLE xs zs = true := by
  rw [componentsLE_iff] at h h' ⊢
  rcases h with h | rfl
  · rcases h' with h' | rfl
    · exact .inl (List.lt_trans h h')
    · exact .inl h
  · exact h'

/-! ## Extensions -/

theorem Path.extension?_eq_some_iff {name ext : String} :
    Path.extension? name = some ext ↔
      ∃ stem, name = stem ++ "." ++ ext ∧ stem ≠ "" ∧ '.' ∉ ext.toList := by
  constructor
  · intro h
    rw [Path.extension?] at h
    split at h
    case h_1 last d front hcut =>
      obtain ⟨hname, hlast⟩ := Text.cutAt_eq_some_iff.1 hcut
      obtain rfl := Option.some.inj h
      refine ⟨String.ofList (d :: front).reverse, ?_, by simp, by simpa using hlast⟩
      rw [← String.toList_inj, ← List.reverse_reverse name.toList, hname]
      simp
    case h_2 => cases h
  · rintro ⟨stem, rfl, hstem, hext⟩
    have hcut : Text.cutAt '.' (stem ++ "." ++ ext).toList.reverse
        = some (ext.toList.reverse, stem.toList.reverse) :=
      Text.cutAt_eq_some_iff.2 ⟨by simp, by simpa using hext⟩
    obtain ⟨d, front, hfront⟩ : ∃ d front, stem.toList.reverse = d :: front :=
      List.exists_cons_of_ne_nil (by simpa using hstem)
    rw [Path.extension?, hcut, hfront]
    simp

/-- The name of the entry has the extension: something stands before the last dot, and the
extension is what stands behind it. -/
def WalkEntry.EndsIn (e : WalkEntry) (ext : String) : Prop :=
  ∃ directories stem, e.components = directories ++ [stem ++ "." ++ ext] ∧ stem ≠ "" ∧
    '.' ∉ ext.toList

theorem WalkEntry.hasExtension_iff {extensions : List String} {e : WalkEntry} :
    e.hasExtension extensions = true ↔ ∃ ext ∈ extensions, e.EndsIn ext := by
  rw [WalkEntry.hasExtension, Option.any_eq_true]
  constructor
  · rintro ⟨ext, hext, hmem⟩
    obtain ⟨name, hname, hext⟩ := Option.bind_eq_some_iff.1 hext
    obtain ⟨directories, hcomponents⟩ := List.getLast?_eq_some_iff.1 hname
    obtain ⟨stem, rfl, hstem, hdot⟩ := Path.extension?_eq_some_iff.1 hext
    exact ⟨ext, List.contains_iff_mem.1 hmem, directories, stem, hcomponents, hstem, hdot⟩
  · rintro ⟨ext, hmem, directories, stem, hcomponents, hstem, hdot⟩
    refine ⟨ext, ?_, List.contains_iff_mem.2 hmem⟩
    rw [hcomponents, List.getLast?_concat, Option.bind_some]
    exact Path.extension?_eq_some_iff.2 ⟨stem, rfl, hstem, hdot⟩

/-! ## Sorting entries -/

/-- The source files among the entries of a walk, in order. -/
def sourceEntries (extensions : List String) (excludes : List Glob.Pattern)
    (entries : List WalkEntry) : List WalkEntry :=
  (entries.filter (·.isSource extensions excludes)).mergeSort fun e f =>
    componentsLE e.components f.components

section

variable {extensions : List String} {excludes : List Glob.Pattern}
  {entries entries' : List WalkEntry}

theorem map_components_sourceEntries :
    (sourceEntries extensions excludes entries).map WalkEntry.components
      = selectSources extensions excludes entries :=
  List.map_mergeSort fun _ _ _ _ => rfl

theorem sourceEntries_perm_filter :
    (sourceEntries extensions excludes entries).Perm
      (entries.filter (·.isSource extensions excludes)) :=
  List.mergeSort_perm _ _

theorem mem_sourceEntries {e : WalkEntry} :
    e ∈ sourceEntries extensions excludes entries ↔
      e ∈ entries ∧ e.isFile = true ∧ (∃ ext ∈ extensions, e.EndsIn ext) ∧
        Glob.isExcluded excludes e.components = false := by
  rw [sourceEntries_perm_filter.mem_iff, List.mem_filter, WalkEntry.isSource]
  simp [WalkEntry.hasExtension_iff, and_assoc]

theorem pairwise_sourceEntries (h : (entries.map WalkEntry.components).Nodup) :
    (sourceEntries extensions excludes entries).Pairwise fun e f =>
      e.components < f.components := by
  have hle : (sourceEntries extensions excludes entries).Pairwise fun e f =>
      componentsLE e.components f.components = true := by
    apply List.pairwise_mergeSort
    · intro e f g hef hfg
      exact componentsLE_trans hef hfg
    · intro e f
      exact componentsLE_total e.components f.components
  have hne : (sourceEntries extensions excludes entries).Pairwise fun e f =>
      e.components ≠ f.components :=
    ((List.pairwise_map.1 h).filter _).perm sourceEntries_perm_filter.symm Ne.symm
  exact hle.imp₂ (fun e f hef hne => (componentsLE_iff.1 hef).resolve_right hne) hne

/-- The order in which a walk lists its entries does not matter. -/
theorem sourceEntries_of_perm (h : (entries.map WalkEntry.components).Nodup)
    (hp : entries'.Perm entries) :
    sourceEntries extensions excludes entries' = sourceEntries extensions excludes entries := by
  have h' : (entries'.map WalkEntry.components).Nodup := (hp.map _).nodup_iff.2 h
  have hperm : (sourceEntries extensions excludes entries').Perm
      (sourceEntries extensions excludes entries) :=
    sourceEntries_perm_filter.trans ((hp.filter _).trans sourceEntries_perm_filter.symm)
  exact hperm.eq_of_pairwise (fun e f _ _ hef hfe => absurd hfe (List.lt_asymm hef))
    (pairwise_sourceEntries h') (pairwise_sourceEntries h)

end

/-! ## Paths below a directory -/

/-- The text can name an entry of a directory. -/
def Path.IsEntryName (name : String) : Prop := name ≠ "" ∧ '/' ∉ name.toList

theorem Path.pieces_of_append {path : String} {l r : List Char} (h : path.toList = l ++ '/' :: r) :
    (Path.parse path).pieces
      = (Path.parse (String.ofList l)).pieces ++ (Path.parse (String.ofList r)).pieces := by
  simp [Path.parse, h, Text.splitAt_append_cons]

theorem Path.IsEntryName.pieces_eq {name : String} (h : Path.IsEntryName name) :
    (Path.parse name).pieces = [name] := by
  simp [Path.parse, Text.splitAt_of_not_mem h.2, h.1]

theorem Path.pieces_join {name : String} (h : Path.IsEntryName name) (path : String) :
    (Path.parse (Path.join path name)).pieces = (Path.parse path).pieces ++ [name] := by
  have hhead : name.toList.head? ≠ some '/' := fun hh => h.2 (List.mem_of_head? hh)
  by_cases hempty : path = ""
  · rw [Path.join, hempty]
    exact h.pieces_eq
  by_cases hlast : path.toList.getLast? = some '/'
  · obtain ⟨l, hl⟩ := List.getLast?_eq_some_iff.1 hlast
    have hjoin : Path.join path name = path ++ name := by simp [Path.join, hempty, hhead, hlast]
    rw [hjoin, Path.pieces_of_append (l := l) (r := name.toList) (by simp [hl]),
      Path.pieces_of_append hl, String.ofList_toList, h.pieces_eq]
    simp [Path.parse, Text.splitAt]
  · have hjoin : Path.join path name = path ++ "/" ++ name := by
      simp [Path.join, hempty, hhead, hlast]
    rw [hjoin, Path.pieces_of_append (l := path.toList) (r := name.toList) (by simp),
      String.ofList_toList, String.ofList_toList, h.pieces_eq]

theorem pieces_pathBelow {components : List String} (h : ∀ name ∈ components, Path.IsEntryName name)
    (path : String) :
    (Path.parse (pathBelow path components)).pieces = (Path.parse path).pieces ++ components := by
  induction components generalizing path with
  | nil => exact (List.append_nil _).symm
  | cons name components ih =>
    obtain ⟨hn, hc⟩ := List.forall_mem_cons.1 h
    have hrest := ih hc (Path.join path name)
    rw [Path.pieces_join hn, List.append_assoc] at hrest
    exact hrest

namespace Analyzer

theorem filesOf_eq {a : Analyzer} {files : FileAccess} {path : String} {entries : List WalkEntry}
    (hd : files.isDirectory path = true)
    (hw : files.walk a.config.analyzer.respectGitignore path = .ok entries) :
    a.filesOf files path = .ok ((sourceEntries a.parser.extensions a.excludes entries).map fun e =>
      pathBelow path e.components) := by
  simp only [filesOf, if_pos hd, hw, ← map_components_sourceEntries, List.map_map]
  rfl

/-- However a walk lists the entries of a directory, the files to analyse are the same: the paths of
the files that have one of the parser's extensions and are not excluded, each once, by increasing
path components. -/
theorem filesOf_sorted (a : Analyzer) (path : String) (entries : List WalkEntry)
    (h : (entries.map WalkEntry.components).Nodup) :
    ∃ chosen : List WalkEntry,
      (∀ files entries', entries'.Perm entries → files.isDirectory path = true →
        files.walk a.config.analyzer.respectGitignore path = .ok entries' →
        a.filesOf files path = .ok (chosen.map fun e => pathBelow path e.components)) ∧
      (∀ e, e ∈ chosen ↔ e ∈ entries ∧ e.isFile = true ∧
        (∃ ext ∈ a.parser.extensions, e.EndsIn ext) ∧
        Glob.isExcluded a.excludes e.components = false) ∧
      chosen.Nodup ∧
      chosen.Pairwise (fun e f => e.components < f.components) ∧
      ((∀ e ∈ entries, ∀ name ∈ e.components, Path.IsEntryName name) →
        (chosen.map fun e => pathBelow path e.components).Pairwise fun file later =>
          (Path.parse file).pieces < (Path.parse later).pieces) := by
  have hlt : (sourceEntries a.parser.extensions a.excludes entries).Pairwise fun e f =>
      e.components < f.components := pairwise_sourceEntries h
  refine ⟨sourceEntries a.parser.extensions a.excludes entries, ?_, fun e => mem_sourceEntries, ?_,
    hlt, ?_⟩
  · intro files entries' hp hd hw
    rw [filesOf_eq hd hw, sourceEntries_of_perm h hp]
  · refine hlt.imp ?_
    rintro e f hef rfl
    exact List.lt_irrefl _ hef
  · intro hnames
    refine List.pairwise_map.2 (hlt.imp_of_mem ?_)
    intro e f he hf hef
    rw [pieces_pathBelow (hnames e (mem_sourceEntries.1 he).1),
      pieces_pathBelow (hnames f (mem_sourceEntries.1 hf).1)]
    exact List.append_left_lt hef

/-- A listing with a directory `a-b` before a directory `a`. A hyphen comes before a separator. -/
def hyphenEntries : List WalkEntry :=
  [⟨["a-b"], false⟩, ⟨["a-b", "x.swift"], true⟩, ⟨["a", "Pods", "y.swift"], true⟩,
    ⟨["a", "notes.txt"], true⟩, ⟨["a", "x.swift"], true⟩, ⟨["a", ".swift"], true⟩]

theorem filesOf_sorted_hyphenEntries :
    let a : Analyzer := {
      parser := ⟨"swift", ["swift"], fun _ => .error .noTree⟩
      rules := []
      excludes := [⟨"Pods", [.char 'P', .char 'o', .char 'd', .char 's']⟩]
      points := .builtin
      config := {} }
    (hyphenEntries.map WalkEntry.components).Nodup ∧
    (∀ files entries, entries.Perm hyphenEntries → files.isDirectory "src" = true →
      files.walk true "src" = .ok entries →
      a.filesOf files "src" = .ok ["src/a/x.swift", "src/a-b/x.swift"]) ∧
    "src/a-b/x.swift" < "src/a/x.swift" := by
  intro a
  have hn : (hyphenEntries.map WalkEntry.components).Nodup := by decide
  have hsources : hyphenEntries.filter (·.isSource ["swift"] a.excludes)
      = [⟨["a-b", "x.swift"], true⟩, ⟨["a", "x.swift"], true⟩] := by decide +kernel
  have hle : componentsLE ["a-b", "x.swift"] ["a", "x.swift"] = false := by decide
  have hselected : selectSources ["swift"] a.excludes hyphenEntries
      = [["a", "x.swift"], ["a-b", "x.swift"]] := by
    rw [selectSources, hsources]
    simp [List.mergeSort, hle]
  obtain ⟨chosen, hfiles, -⟩ := filesOf_sorted a "src" hyphenEntries hn
  have hchosen := hfiles ⟨fun _ => true, fun _ => .error .notFound, fun _ _ => .ok hyphenEntries⟩
    hyphenEntries (.refl _) rfl rfl
  simp only [filesOf, if_true] at hchosen
  refine ⟨hn, fun files entries hp hd hw => ?_, by decide⟩
  rw [hfiles files entries hp hd hw, ← hchosen, hselected]
  rfl

end Analyzer

end ConcurrencyLint
