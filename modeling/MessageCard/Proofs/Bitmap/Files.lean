import MessageCard.Bitmap.Files
import MessageCard.Proofs.Text.Words

/-!
# Images stay below their directory

However often the scheme of files stands at the beginning of a URL, the rest is the path that
counts. A path that neither begins at the root nor goes up is opened where it goes on from the
directory, and what is read there depends only on the files below that directory.
-/
namespace MessageCard

/-! ## Paths -/

namespace FilePath

variable {base path : List Char}

theorem names_ne_nil (path : List Char) : names path ≠ [] := splitWhen_ne_nil _ path

theorem names_append_slash (s t : List Char) : names (s ++ '/' :: t) = names s ++ names t :=
  splitWhen_append_break (by decide) s t

theorem head?_names_append (s : List Char) (more : List (List Char)) :
    (names s ++ more).head? = (names s).head? := by
  obtain ⟨first, rest, h⟩ := List.exists_cons_of_ne_nil (names_ne_nil s)
  simp [h]

theorem part?_eq_up_iff {name : List Char} : part? name = some .up ↔ name = ['.', '.'] := by
  unfold part?
  split
  · next h => rcases h with rfl | rfl <;> simp
  · simp

theorem part?_ne_root (name : List Char) : part? name ≠ some .root := by
  unfold part?
  split
  · simp
  · split <;> simp

theorem beginning?_ne_up (path : List Char) : beginning? path ≠ some .up := by
  unfold beginning?
  split
  · simp
  · split <;> simp

theorem beginning?_eq_root_iff : beginning? path = some .root ↔ isAbsolute path = true := by
  unfold beginning?
  split
  · next h => simp [h]
  · next h => split <;> simp [h]

/-- A path begins at the root where its text begins with a slash. -/
theorem root_mem_parts_iff : .root ∈ parts path ↔ isAbsolute path = true := by
  simp [parts, beginning?_eq_root_iff, part?_ne_root]

/-- A path goes up where one of its names is two dots. -/
theorem up_mem_parts_iff : .up ∈ parts path ↔ ['.', '.'] ∈ names path := by
  simp [parts, beginning?_ne_up, part?_eq_up_iff]

/-- A path that goes on from another one begins where that one begins. -/
theorem isAbsolute_join (h : isAbsolute path = false) :
    isAbsolute (join base path) = isAbsolute base := by
  cases base with
  | nil => simp [join, h, show isAbsolute [] = false from rfl]
  | cons c rest =>
    rw [join, if_neg (by simp [h])]
    split <;> rfl

/-- The names of a path that goes on from another one, which may end with a slash. -/
theorem names_join (h : isAbsolute path = false) (hbase : base ≠ []) :
    ∃ s, (base = s ∨ base = s ++ ['/']) ∧ names (join base path) = names s ++ names path := by
  by_cases hlast : base.getLast? = some '/'
  · obtain ⟨s, rfl⟩ := List.getLast?_eq_some_iff.mp hlast
    refine ⟨s, .inr rfl, ?_⟩
    rw [join, if_neg (by simp [h]), if_pos (.inr hlast), List.append_assoc, List.singleton_append,
      names_append_slash]
  · refine ⟨base, .inl rfl, ?_⟩
    rw [join, if_neg (by simp [h]), if_neg (by simp [hbase, hlast]), names_append_slash]

/-- A path that goes on from another one has the parts of that one, and then its own. -/
theorem parts_join (h : isAbsolute path = false) (hbase : base ≠ []) :
    parts (join base path) = parts base ++ (names path).filterMap part? := by
  obtain ⟨s, hs, hnames⟩ := names_join h hbase
  have hslash : names (s ++ ['/']) = names s ++ [[]] := names_append_slash s []
  have hparts : (names base).filterMap part? = (names s).filterMap part? := by
    rcases hs with rfl | rfl
    · rfl
    · rw [hslash]
      simp [part?]
  have hhead : (names (join base path)).head? = (names base).head? := by
    rw [hnames, head?_names_append]
    rcases hs with rfl | rfl
    · rfl
    · rw [hslash, head?_names_append]
  have hbeginning : beginning? (join base path) = beginning? base := by
    rw [beginning?, isAbsolute_join h, hhead, beginning?]
  rw [parts, hbeginning, hnames, List.filterMap_append, ← List.append_assoc, ← hparts, parts]

/-- Nothing that a path opens is outside of where it goes on from: what is added to the parts is no
root and does not go up. -/
theorem exists_parts_join (h : isAbsolute path = false) (hup : ['.', '.'] ∉ names path)
    (base : List Char) :
    ∃ more, parts (join base path) = parts base ++ more ∧ .root ∉ more ∧ .up ∉ more := by
  by_cases hbase : base = []
  · subst hbase
    refine ⟨parts path, ?_, by simp [root_mem_parts_iff, h], by simp [up_mem_parts_iff, hup]⟩
    simp [join, h, show parts [] = [] from rfl]
  · refine ⟨_, parts_join h hbase, ?_, ?_⟩
    · simp [part?_ne_root]
    · simp [part?_eq_up_iff, hup]

end FilePath

/-! ## Trees -/

namespace FileTree

/-- The files of a tree below a directory. -/
def below (t : FileTree) (directory : Path) : List (Path × String) :=
  t.files.filter fun f => directory.isPrefixOf f.1

/-- A file, or a directory that is not outside of another one. -/
def IsWithin (directory : Path) : FileNode → Prop
  | .file _ => True
  | .directory path => directory <+: path

variable {t other : FileTree} {directory path : Path} {node next : FileNode}

theorem file?_eq_of_below (t : FileTree) (h : directory <+: path) :
    t.file? path = ((t.below directory).find? (·.1 = path)).map (·.2) := by
  rw [file?, below, List.find?_filter]
  congr 2
  funext f
  by_cases hf : f.1 = path <;> simp [hf, h]

theorem isDirectory_eq_of_below (t : FileTree) (h : directory <+: path) :
    t.isDirectory path =
      (t.below directory).any fun f => path.isPrefixOf f.1 && path.length < f.1.length := by
  rw [isDirectory, below, List.any_filter]
  congr 1
  funext f
  by_cases hf : path <+: f.1
  · simp [hf, h.trans hf]
  · simp [hf]

/-- One name further, unless it goes up, only the files below count. -/
theorem enter_congr (hbelow : t.below directory = other.below directory)
    (hnode : IsWithin directory node) {name : String} (hname : name ≠ "..") :
    t.enter name node = other.enter name node := by
  cases node with
  | file text => rfl
  | directory path =>
    have hnext : directory <+: path ++ [name] := hnode.trans (List.prefix_append _ _)
    simp only [enter, file?_eq_of_below _ hnext, isDirectory_eq_of_below _ hnext, hbelow, hname]

theorem isWithin_enter (hnode : IsWithin directory node) {name : String} (hname : name ≠ "..")
    (h : t.enter name node = .ok next) : IsWithin directory next := by
  cases node with
  | file text => cases h
  | directory path =>
    have hnext : directory <+: path ++ [name] := hnode.trans (List.prefix_append _ _)
    simp only [enter, if_neg hname] at h
    split at h
    · cases h
      exact hnode
    · split at h
      · cases h
      · split at h
        · cases h
          trivial
        · split at h <;> cases h
          exact hnext

/-- Names that do not go up lead to the same place in two trees that agree below. -/
theorem follow_congr (hbelow : t.below directory = other.below directory) {names : Path}
    (hnames : ".." ∉ names) (hnode : IsWithin directory node) :
    t.follow names node = other.follow names node := by
  induction names generalizing node with
  | nil => rfl
  | cons name rest ih =>
    have hname : name ≠ ".." := fun h => hnames (h ▸ List.mem_cons_self)
    have hrest : ".." ∉ rest := fun h => hnames (List.mem_cons_of_mem _ h)
    simp only [follow, List.foldlM_cons, ← enter_congr hbelow hnode hname]
    cases henter : t.enter name node with
    | error e => rfl
    | ok next => exact ih hrest (isWithin_enter hnode hname henter)

theorem follow_append (t : FileTree) (names more : Path) (node : FileNode) :
    t.follow (names ++ more) node = (t.follow names node).bind (t.follow more) :=
  List.foldlM_append

/-- A slash at the end of a path changes nothing for the names after it. -/
theorem follow_slash (t : FileTree) {names : Path} (h : names ≠ []) (node : FileNode) :
    (t.follow [""] node).bind (t.follow names) = t.follow names node := by
  obtain ⟨name, rest, rfl⟩ := List.exists_cons_of_ne_nil h
  cases node with
  | file text => rfl
  | directory path => rfl

/-- A path that goes on from another one leads on from where that one leads. -/
theorem reach_join (t : FileTree) {base path : List Char} (h : FilePath.isAbsolute path = false)
    (start : Path) : t.reach start (FilePath.join base path) =
      (t.reach start base).bind (t.follow ((FilePath.names path).map String.ofList)) := by
  have hnames : (FilePath.names path).map String.ofList ≠ [] := by
    simpa using FilePath.names_ne_nil path
  rw [reach, reach, FilePath.isAbsolute_join h]
  generalize (if FilePath.isAbsolute base then [] else start) = first
  by_cases hbase : base = []
  · subst hbase
    have hjoin : FilePath.join [] path = path := by simp [FilePath.join, h]
    rw [hjoin]
    exact (t.follow_slash hnames (.directory first)).symm
  · obtain ⟨s, rfl | rfl, hjoin⟩ := FilePath.names_join h hbase
    · rw [hjoin, List.map_append, follow_append]
    · rw [hjoin, FilePath.names_append_slash, List.map_append, List.map_append, follow_append,
        follow_append]
      cases t.follow ((FilePath.names s).map String.ofList) (.directory first) with
      | error e => rfl
      | ok node => exact (t.follow_slash hnames node).symm

/-- Two trees that agree below a directory have the same files on a path that goes on from there and
does not go up. -/
theorem readFrom_join_congr {t other : FileTree} {start directory : Path} {base path : List Char}
    (ht : t.reach start base = .ok (.directory directory))
    (hother : other.reach start base = .ok (.directory directory))
    (hbelow : t.below directory = other.below directory) (h : FilePath.isAbsolute path = false)
    (hup : ['.', '.'] ∉ FilePath.names path) :
    t.readFrom start (FilePath.join base path) =
      other.readFrom start (FilePath.join base path) := by
  have hnames : ".." ∉ (FilePath.names path).map String.ofList := by
    intro hmem
    obtain ⟨name, hname, heq⟩ := List.mem_map.mp hmem
    have hdots : name = ['.', '.'] := by simpa using congrArg String.toList heq
    exact hup (hdots ▸ hname)
  have hfollow : t.follow ((FilePath.names path).map String.ofList) (.directory directory) =
      other.follow ((FilePath.names path).map String.ofList) (.directory directory) :=
    follow_congr hbelow hnames (List.prefix_refl directory)
  have hreach : t.reach start (FilePath.join base path) =
      other.reach start (FilePath.join base path) := by
    rw [reach_join t h, reach_join other h, ht, hother]
    exact hfollow
  rw [readFrom, readFrom, hreach]

end FileTree

/-! ## URLs -/

namespace ImageFiles

theorem hasScheme_iff {s : List Char} : hasScheme s = true ↔ schemeEnd <:+: s := by
  induction s with
  | nil => simp [hasScheme, schemeEnd]
  | cons c rest ih => simp [hasScheme, ih, List.infix_cons_iff]

/-- What is left of a URL is what stands after the schemes of files at its beginning. -/
theorem exists_withoutScheme (s : List Char) :
    ∃ n, s = (List.replicate n fileScheme).flatten ++ withoutScheme s ∧
      ¬ fileScheme <+: withoutScheme s := by
  fun_induction withoutScheme s with
  | case1 rest ih =>
    obtain ⟨n, heq, hrest⟩ := ih
    refine ⟨n + 1, ?_, hrest⟩
    rw [List.replicate_succ, List.flatten_cons, List.append_assoc, ← heq]
    rfl
  | case2 s hs =>
    refine ⟨0, rfl, ?_⟩
    rintro ⟨rest, rfl⟩
    exact hs rest rfl

theorem leadsDown_iff {path : List Char} :
    leadsDown path = true ↔
      FilePath.isAbsolute path = false ∧ ['.', '.'] ∉ FilePath.names path := by
  rw [← FilePath.up_mem_parts_iff, ← Bool.not_eq_true, ← FilePath.root_mem_parts_iff, leadsDown,
    List.all_eq_true]
  constructor
  · exact fun h => ⟨fun hroot => by simpa using h _ hroot, fun hup => by simpa using h _ hup⟩
  · rintro ⟨hroot, hup⟩ part hpart
    cases part with
    | root => exact absurd hpart hroot
    | up => exact absurd hpart hup
    | here => rfl
    | name text => rfl

section

variable {m : Type → Type} [Monad m] {α : Type} (readFile : List Char → m (Except FileError α))
  (base : List Char) {url : String}

theorem fetchFrom_of_foreign (hmark : schemeEnd <:+: url.toList)
    (hforeign : ¬ fileScheme <+: url.toList) :
    fetchFrom readFile base url =
      pure (.error (.transport ("unsupported scheme in " ++ url))) := by
  refine if_pos ⟨hasScheme_iff.mpr hmark, ?_⟩
  rwa [← Bool.not_eq_true, List.isPrefixOf_iff_prefix]

variable (hscheme : schemeEnd <:+: url.toList → fileScheme <+: url.toList)
include hscheme

theorem fetchFrom_eq : fetchFrom readFile base url =
    if leadsDown (withoutScheme url.toList) then do
      let answer ← readFile (FilePath.join base (withoutScheme url.toList))
      return answer.mapError (ofFileError url)
    else pure (.error (.outsideBase url)) := by
  refine if_neg ?_
  rintro ⟨hmark, hforeign⟩
  have hfile := List.isPrefixOf_iff_prefix.mpr (hscheme (hasScheme_iff.mp hmark))
  exact Bool.false_ne_true (hforeign.symm.trans hfile)

/-- A path that leads out of the directory is refused. -/
theorem fetchFrom_of_outside (h : leadsDown (withoutScheme url.toList) = false) :
    fetchFrom readFile base url = pure (.error (.outsideBase url)) := by
  rw [fetchFrom_eq readFile base hscheme, h]
  rfl

/-- Any other path is opened where it goes on from the directory, and nothing else is. -/
theorem fetchFrom_of_leadsDown (h : leadsDown (withoutScheme url.toList) = true) :
    fetchFrom readFile base url = do
      let answer ← readFile (FilePath.join base (withoutScheme url.toList))
      return answer.mapError (ofFileError url) := by
  rw [fetchFrom_eq readFile base hscheme, h]
  rfl

end

/-- For every directory and every URL, either nothing is opened, because the URL has a foreign
scheme or its path begins at the root or goes up, or exactly one file is opened: that of the path
where it goes on from the directory. What is read then does not depend on any file outside of it. -/
theorem opens_only_below {m : Type → Type} [Monad m] {α : Type}
    (readFile : List Char → m (Except FileError α)) (base : List Char) (url : String) :
    (∃ n path, url.toList = (List.replicate n fileScheme).flatten ++ path ∧
      ¬ fileScheme <+: path ∧
      ((schemeEnd <:+: url.toList ∧ ¬ fileScheme <+: url.toList ∧
          fetchFrom readFile base url =
            pure (.error (.transport ("unsupported scheme in " ++ url)))) ∨
        ((path.head? = some '/' ∨ ['.', '.'] ∈ FilePath.names path) ∧
          fetchFrom readFile base url = pure (.error (.outsideBase url))) ∨
        (path.head? ≠ some '/' ∧ ['.', '.'] ∉ FilePath.names path ∧
          (∃ more, FilePath.parts (FilePath.join base path) = FilePath.parts base ++ more ∧
            .root ∉ more ∧ .up ∉ more) ∧
          fetchFrom readFile base url = do
            let answer ← readFile (FilePath.join base path)
            return answer.mapError (ofFileError url)))) ∧
    ∀ (t other : FileTree) (start directory : Path),
      t.reach start base = .ok (.directory directory) →
      other.reach start base = .ok (.directory directory) →
      t.below directory = other.below directory →
      Id.run (fetchFrom (fun path => pure (t.readFrom start path)) base url) =
        Id.run (fetchFrom (fun path => pure (other.readFrom start path)) base url) := by
  obtain ⟨n, hurl, hpath⟩ := exists_withoutScheme url.toList
  by_cases hforeign : schemeEnd <:+: url.toList ∧ ¬ fileScheme <+: url.toList
  · obtain ⟨hmark, hother⟩ := hforeign
    refine ⟨⟨n, _, hurl, hpath, .inl ⟨hmark, hother, ?_⟩⟩, ?_⟩
    · exact fetchFrom_of_foreign readFile base hmark hother
    · intro t other start directory _ _ _
      rw [fetchFrom_of_foreign _ base hmark hother, fetchFrom_of_foreign _ base hmark hother]
  have hscheme : schemeEnd <:+: url.toList → fileScheme <+: url.toList := by
    simpa only [not_and, not_not] using hforeign
  cases hdown : leadsDown (withoutScheme url.toList) with
  | false =>
    refine ⟨⟨n, _, hurl, hpath, .inr (.inl ⟨?_, ?_⟩)⟩, ?_⟩
    · rw [← Bool.not_eq_true, leadsDown_iff, not_and_or, Bool.not_eq_false, not_not] at hdown
      simpa [FilePath.isAbsolute] using hdown
    · exact fetchFrom_of_outside readFile base hscheme hdown
    · intro t other start directory _ _ _
      rw [fetchFrom_of_outside _ base hscheme hdown, fetchFrom_of_outside _ base hscheme hdown]
  | true =>
    obtain ⟨hrelative, hup⟩ := leadsDown_iff.mp hdown
    refine ⟨⟨n, _, hurl, hpath, .inr (.inr ⟨?_, hup, ?_, ?_⟩)⟩, ?_⟩
    · simpa [FilePath.isAbsolute] using hrelative
    · exact FilePath.exists_parts_join hrelative hup base
    · exact fetchFrom_of_leadsDown readFile base hscheme hdown
    · intro t other start directory ht hother hbelow
      have hread := FileTree.readFrom_join_congr ht hother hbelow hrelative hup
      rw [fetchFrom_of_leadsDown _ base hscheme hdown, fetchFrom_of_leadsDown _ base hscheme hdown]
      simp only [hread]

/-- A secret beside the directory does not matter for an icon below it. -/
theorem opens_only_below_of_icon :
    let url := "file://file://./icons//dot.png"
    let base := ['b', 'a', 's', 'e']
    let tree (secret : String) : FileTree :=
      ⟨[(["base", "icons", "dot.png"], "png"), (["secret.png"], secret)]⟩
    let fetchIn (t : FileTree) : Except ImageError String :=
      Id.run (fetchFrom (fun path => pure (t.readFrom [] path)) base url)
    (tree "a").reach [] base = .ok (.directory ["base"]) ∧
      (tree "b").reach [] base = .ok (.directory ["base"]) ∧
      (tree "a").below ["base"] = (tree "b").below ["base"] ∧
      fetchIn (tree "a") = fetchIn (tree "b") := by
  intro url base tree fetchIn
  have ha : (tree "a").reach [] base = .ok (.directory ["base"]) := by rfl
  have hb : (tree "b").reach [] base = .ok (.directory ["base"]) := by rfl
  have hbelow : (tree "a").below ["base"] = (tree "b").below ["base"] := by rfl
  have hopens := opens_only_below (fun _ => (pure (.ok ()) : Id _)) base url
  exact ⟨ha, hb, hbelow, hopens.2 (tree "a") (tree "b") [] ["base"] ha hb hbelow⟩

/-- A repeated scheme, a dot and a doubled slash still name a file below the directory. -/
example : fetch ⟨[(["icons", "dot.png"], "png")]⟩ "file://file://./icons//dot.png" = .ok "png" := by
  decide +kernel

end ImageFiles
end MessageCard
