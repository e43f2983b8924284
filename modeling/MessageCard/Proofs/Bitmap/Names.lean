import Mathlib.Data.List.DropRight
import Mathlib.Data.List.Infix
import MessageCard.Bitmap.FileName

/-!
# File names are safe

The name that a bitmap is filed under is a digest, after which an extension may follow. The
extension is taken from a URL that may hold anything, but only its path is looked at, only what
follows the last dot in the last part of it, and only if these are a few letters and digits. So a
name is one file and no way to another place, and the query of a URL has no say in it.
-/
namespace MessageCard.Bitmap

/-! ## Parts of a text -/

section

variable {mark : Char} {s before after : List Char}

theorem not_mem_of_forall {p : Char → Bool} (h : ∀ c ∈ s, p c = true) (hmark : p mark = false) :
    mark ∉ s :=
  fun hmem => Bool.false_ne_true (hmark.symm.trans (h mark hmem))

theorem forall_ne_of_not_mem (h : mark ∉ s) : ∀ c ∈ s, decide (c ≠ mark) = true :=
  fun _ hc => decide_eq_true (ne_of_mem_of_not_mem hc h)

theorem afterLast_eq (mark : Char) (s : List Char) : afterLast mark s = s.rtakeWhile (· ≠ mark) :=
  rfl

theorem ne_of_mem_afterLast {c : Char} (h : c ∈ afterLast mark s) : c ≠ mark := by
  rw [afterLast_eq] at h
  simpa using List.mem_rtakeWhile_imp h

theorem reverse_append_mark (before after : List Char) (mark : Char) :
    (before ++ mark :: after).reverse = after.reverse ++ mark :: before.reverse := by
  simp

theorem afterLast_append (h : mark ∉ after) : afterLast mark (before ++ mark :: after) = after := by
  have hkept := forall_ne_of_not_mem (mt List.mem_reverse.mp h)
  rw [afterLast, reverse_append_mark, List.takeWhile_append_of_pos hkept,
    List.takeWhile_cons_of_neg (by simp), List.append_nil, List.reverse_reverse]

theorem beforeLast_append (h : mark ∉ after) :
    beforeLast mark (before ++ mark :: after) = before := by
  have hkept := forall_ne_of_not_mem (mt List.mem_reverse.mp h)
  rw [beforeLast, reverse_append_mark, List.dropWhile_append_of_pos hkept,
    List.dropWhile_cons_of_neg (by simp), List.drop_succ_cons, List.drop_zero,
    List.reverse_reverse]

theorem afterLast_of_not_mem (h : mark ∉ s) : afterLast mark s = s := by
  rw [afterLast_eq, List.rtakeWhile_eq_self_iff]
  exact forall_ne_of_not_mem h

theorem beforeLast_of_not_mem (h : mark ∉ s) : beforeLast mark s = [] := by
  have hdrop : s.reverse.dropWhile (· ≠ mark) = [] := by
    rw [List.dropWhile_eq_nil_iff]
    exact forall_ne_of_not_mem (mt List.mem_reverse.mp h)
  rw [beforeLast, hdrop]
  rfl

/-- A text with a mark is cut in two at the last one. -/
theorem eq_append_afterLast (h : mark ∈ s) :
    s = beforeLast mark s ++ mark :: afterLast mark s := by
  obtain ⟨ending, start, hs, hending⟩ := List.eq_append_cons_of_mem (List.mem_reverse.mpr h)
  have hsplit : s = start.reverse ++ mark :: ending.reverse := by
    rw [← List.reverse_reverse s, hs]
    simp
  have hafter : mark ∉ ending.reverse := fun hmem => hending (List.mem_reverse.mp hmem)
  rw [hsplit, beforeLast_append hafter, afterLast_append hafter]

/-- What stands before the part after the last mark ends with the mark, if there is anything. -/
theorem exists_append_afterLast (mark : Char) (s : List Char) :
    ∃ before, s = before ++ afterLast mark s ∧ ∀ c ∈ before.getLast?, c = mark := by
  by_cases h : mark ∈ s
  · refine ⟨beforeLast mark s ++ [mark], ?_, by simp⟩
    rw [List.append_assoc, List.singleton_append, ← eq_append_afterLast h]
  · exact ⟨[], by rw [afterLast_of_not_mem h, List.nil_append], by simp⟩

/-- What stands before text that ends with the mark does not matter. -/
theorem afterLast_append_of_getLast? (hbefore : ∀ c ∈ before.getLast?, c = mark)
    (hafter : mark ∉ after) : afterLast mark (before ++ after) = after := by
  rcases List.eq_nil_or_concat before with rfl | ⟨start, c, rfl⟩
  · exact afterLast_of_not_mem hafter
  · have hc : c = mark := hbefore c (by simp)
    rw [List.concat_eq_append, hc, List.append_assoc, List.singleton_append,
      afterLast_append hafter]

end

/-! ## Paths of URLs -/

theorem pathOf_append {path rest : List Char} (hpath : ∀ c ∈ path, c ≠ '?' ∧ c ≠ '#')
    (hrest : ∀ c ∈ rest.head?, c = '?' ∨ c = '#') : pathOf (path ++ rest) = path := by
  have hkept : ∀ c ∈ path, (decide (c ≠ '?') && decide (c ≠ '#')) = true :=
    fun c hc => by simpa using hpath c hc
  rw [pathOf, List.takeWhile_append_of_pos hkept]
  cases rest with
  | nil => simp
  | cons c rest => rcases hrest c rfl with rfl | rfl <;> simp

/-- A URL is its path, and then whatever begins with a question mark or a hash. -/
theorem exists_pathOf_append (url : List Char) : ∃ rest, url = pathOf url ++ rest ∧
    (∀ c ∈ pathOf url, c ≠ '?' ∧ c ≠ '#') ∧ ∀ c ∈ rest.head?, c = '?' ∨ c = '#' := by
  refine ⟨url.dropWhile fun c => c ≠ '?' && c ≠ '#', List.takeWhile_append_dropWhile.symm,
    fun c hc => ?_, fun c hc => ?_⟩
  · simpa using List.mem_takeWhile_imp hc
  · have hnot := List.head?_dropWhile_not (fun c => c ≠ '?' && c ≠ '#') url
    rw [Option.mem_def.mp hc] at hnot
    simpa [or_iff_not_imp_left] using hnot

/-! ## Extensions -/

/-- A letter or a digit as an extension is filed. -/
def isSmallLetterOrDigit (c : Char) : Bool := ('a' ≤ c && c ≤ 'z') || ('0' ≤ c && c ≤ '9')

theorem isSmallLetterOrDigit_toLower {c : Char} (h : isLetterOrDigit c = true) :
    isSmallLetterOrDigit c.toLower = true := by
  have hsmall : ∀ n < 123, isLetterOrDigit (Char.ofNat n) = true →
      isSmallLetterOrDigit (Char.ofNat n).toLower = true := by decide
  have hn : c.toNat < 123 := by
    simp only [isLetterOrDigit, Bool.or_eq_true, Bool.and_eq_true, decide_eq_true_eq] at h
    have hle : c ≤ 'z' := by
      rcases h with (h | h) | h
      · exact h.2
      · exact Char.le_trans h.2 (by decide)
      · exact Char.le_trans h.2 (by decide)
    exact Nat.lt_succ_of_le hle
  simpa using hsmall c.toNat hn (by simpa using h)

/-- Whether a URL names a file with an extension: after its last slash, and before any question
mark and any hash, some name, a dot, and then one to five letters or digits. -/
def HasExtension (url extension : List Char) : Prop :=
  ∃ folder name rest, url = folder ++ (name ++ '.' :: extension) ++ rest ∧
    (∀ c ∈ folder ++ name, c ≠ '?' ∧ c ≠ '#') ∧ (∀ c ∈ folder.getLast?, c = '/') ∧
    name ≠ [] ∧ '/' ∉ name ∧ extension ≠ [] ∧ extension.length ≤ 5 ∧
    (∀ c ∈ extension, isLetterOrDigit c = true) ∧ ∀ c ∈ rest.head?, c = '?' ∨ c = '#'

/-- The four cuts take the extension that the URL has. -/
theorem extension?_eq_some_iff {url letters : List Char} : extension? url = some letters ↔
    ∃ extension, HasExtension url extension ∧ letters = extension.map Char.toLower := by
  constructor
  · intro h
    rw [extension?] at h
    obtain ⟨rest, hurl, hpath, hrest⟩ := exists_pathOf_append url
    obtain ⟨folder, hfolder, hslash⟩ := exists_append_afterLast '/' (pathOf url)
    generalize hfile : afterLast '/' (pathOf url) = file at h hfolder
    split at h
    case isFalse => cases h
    case isTrue hvalid =>
      obtain ⟨hname, hne, hlength, hall⟩ := hvalid
      cases h
      have hdot : '.' ∈ file := by
        by_contra hdot
        exact hname (beforeLast_of_not_mem hdot)
      have hsplit := eq_append_afterLast hdot
      refine ⟨afterLast '.' file, ⟨folder, beforeLast '.' file, rest, ?_, fun c hc => ?_, hslash,
        hname, fun hmem => ?_, hne, hlength, List.all_eq_true.mp hall, hrest⟩, rfl⟩
      · rw [← hsplit, ← hfolder, ← hurl]
      · refine hpath c ?_
        rw [hfolder, hsplit, ← List.append_assoc]
        exact List.mem_append_left _ hc
      · have hmem : '/' ∈ afterLast '/' (pathOf url) := by
          rw [hfile, hsplit]
          exact List.mem_append_left _ hmem
        exact ne_of_mem_afterLast hmem rfl
  · rintro ⟨extension, ⟨folder, name, rest, rfl, hpath, hslash, hname, hnoSlash, hne, hlength, hall,
      hrest⟩, rfl⟩
    have hmark : ∀ mark, isLetterOrDigit mark = false → mark ∉ extension :=
      fun mark => not_mem_of_forall hall
    have hpathOf : pathOf (folder ++ (name ++ '.' :: extension) ++ rest) =
        folder ++ (name ++ '.' :: extension) := by
      refine pathOf_append (fun c hc => ?_) hrest
      rw [← List.append_assoc, List.mem_append, List.mem_cons] at hc
      rcases hc with hc | rfl | hc
      · exact hpath c hc
      · decide
      · exact ⟨fun h => hmark '?' rfl (h ▸ hc), fun h => hmark '#' rfl (h ▸ hc)⟩
    have hfile : afterLast '/' (folder ++ (name ++ '.' :: extension)) = name ++ '.' :: extension := by
      refine afterLast_append_of_getLast? hslash fun hmem => ?_
      rcases List.mem_append.mp hmem with hmem | hmem
      · exact hnoSlash hmem
      · exact hmark '/' rfl ((List.mem_cons.mp hmem).resolve_left (by decide))
    rw [extension?, hpathOf, hfile, afterLast_append (hmark '.' rfl), beforeLast_append (hmark '.' rfl)]
    exact if_pos ⟨hname, hne, hlength, List.all_eq_true.mpr hall⟩

/-! ## Names -/

/-- A digit of a number written to the base sixteen, without capital letters. -/
def isHexDigit (c : Char) : Bool := ('0' ≤ c && c ≤ '9') || ('a' ≤ c && c ≤ 'f')

theorem isHexDigit_of_mem_hexDigits {count n : Nat} {c : Char}
    (h : c ∈ Sha256.hexDigits count n) : isHexDigit c = true := by
  have hdigit : ∀ d < 16, isHexDigit (Char.ofNat (if d < 10 then 48 + d else 87 + d)) = true := by
    decide
  obtain ⟨i, -, rfl⟩ := List.mem_map.mp h
  exact hdigit _ (Nat.mod_lt _ (by decide))

theorem isHexDigit_of_mem_hexDigest {text : String} {c : Char}
    (h : c ∈ Sha256.hexDigest text) : isHexDigit c = true := by
  obtain ⟨word, -, hc⟩ := List.mem_flatMap.mp h
  exact isHexDigit_of_mem_hexDigits hc

/-- What is added to the digest of a name. -/
def ending (url : List Char) : List Char :=
  match extension? url with
  | some letters => '.' :: letters
  | none => []

theorem toList_fileName (url : String) (key : Option String) :
    (fileName url key true).toList = Sha256.hexDigest (key.getD url) ++ ending url.toList :=
  String.toList_ofList

theorem ending_eq_cons_iff {url letters : List Char} :
    ending url = '.' :: letters ↔ extension? url = some letters := by
  rw [ending]
  cases extension? url <;> simp

/-- An ending is empty, or a dot and one to five small letters and digits. -/
theorem ending_cases (url : List Char) : ending url = [] ∨ ∃ letters, ending url = '.' :: letters ∧
    letters ≠ [] ∧ letters.length ≤ 5 ∧ ∀ c ∈ letters, isSmallLetterOrDigit c = true := by
  cases h : extension? url with
  | none => exact .inl (by rw [ending, h])
  | some letters =>
    obtain ⟨extension, ⟨-, -, -, -, -, -, -, -, hne, hlength, hall, -⟩, rfl⟩ :=
      extension?_eq_some_iff.mp h
    refine .inr ⟨_, by rw [ending, h], by simpa using hne, by simpa using hlength, fun c hc => ?_⟩
    obtain ⟨d, hd, rfl⟩ := List.mem_map.mp hc
    exact isSmallLetterOrDigit_toLower (hall d hd)

theorem isSmallLetterOrDigit_of_isHexDigit {c : Char} (h : isHexDigit c = true) :
    isSmallLetterOrDigit c = true := by
  simp only [isHexDigit, isSmallLetterOrDigit, Bool.or_eq_true, Bool.and_eq_true,
    decide_eq_true_eq] at h ⊢
  rcases h with h | h
  · exact .inr h
  · exact .inl ⟨h.1, Char.le_trans h.2 (by decide)⟩

/-- Besides small letters and digits there is at most one dot in a name. -/
theorem exists_dot_between (url : String) (key : Option String) :
    ∃ digest letters : List Char, (∀ c ∈ digest ++ letters, isSmallLetterOrDigit c = true) ∧
      ((fileName url key true).toList = digest ∨
        (fileName url key true).toList = digest ++ '.' :: letters) := by
  have hdigest : ∀ c ∈ Sha256.hexDigest (key.getD url), isSmallLetterOrDigit c = true :=
    fun c hc => isSmallLetterOrDigit_of_isHexDigit (isHexDigit_of_mem_hexDigest hc)
  rw [toList_fileName]
  rcases ending_cases url.toList with hnone | ⟨letters, hletters, -, -, hall⟩
  · exact ⟨_, [], by simpa using hdigest, .inl (by rw [hnone, List.append_nil])⟩
  · exact ⟨_, letters, List.forall_mem_append.mpr ⟨hdigest, hall⟩, .inr (by rw [hletters])⟩

/-- No name has a slash of either kind or two dots one after the other. -/
theorem fileName_is_one_part (url : String) (key : Option String) :
    '/' ∉ (fileName url key true).toList ∧ '\\' ∉ (fileName url key true).toList ∧
      ¬['.', '.'] <:+: (fileName url key true).toList := by
  obtain ⟨digest, letters, hall, hname⟩ := exists_dot_between url key
  have hmark : ∀ mark, isSmallLetterOrDigit mark = false → mark ∉ digest ∧ mark ∉ letters :=
    fun mark h => not_or.mp fun hmem =>
      not_mem_of_forall hall h (List.mem_append.mpr hmem)
  have hslash := hmark '/' (by decide)
  have hbackslash := hmark '\\' (by decide)
  have hdot := hmark '.' (by decide)
  have hdots : (fileName url key true).toList.count '.' ≤ 1 := by
    rcases hname with hname | hname <;>
      simp [hname, List.count_eq_zero_of_not_mem hdot.1, List.count_eq_zero_of_not_mem hdot.2]
  refine ⟨?_, ?_, fun htwo => ?_⟩
  · rcases hname with hname | hname <;> simp [hname, hslash]
  · rcases hname with hname | hname <;> simp [hname, hbackslash]
  · exact absurd ((htwo.sublist.count_le '.').trans hdots) (by decide)

/-- The name that a bitmap is filed under has 64 hexadecimal digits, and after them at most a dot
and one to five small letters and digits, whatever the URL and the key are. So there is no slash in
it, and no two dots. The digits are the digest of the key, or of the URL where there is no key. The
letters are the extension that the URL has, and only its path has a say in them. -/
theorem fileName_is_safe (url : String) (key : Option String) :
    let name := (fileName url key true).toList
    (name.take 64 = Sha256.hexDigest (key.getD url) ∧ (name.take 64).length = 64 ∧
      ∀ c ∈ name.take 64, isHexDigit c = true) ∧
    (name.drop 64 = [] ∨ ∃ letters, name.drop 64 = '.' :: letters ∧ letters ≠ [] ∧
      letters.length ≤ 5 ∧ ∀ c ∈ letters, isSmallLetterOrDigit c = true) ∧
    (∀ letters, name.drop 64 = '.' :: letters ↔
      ∃ extension, HasExtension url.toList extension ∧ letters = extension.map Char.toLower) ∧
    ('/' ∉ name ∧ '\\' ∉ name ∧ ¬['.', '.'] <:+: name) ∧
    ∀ other otherKey, let otherName := (fileName other otherKey true).toList
      (otherKey.getD other = key.getD url → otherName.take 64 = name.take 64) ∧
      (pathOf other.toList = pathOf url.toList → otherName.drop 64 = name.drop 64) := by
  intro name
  have hlength := Sha256.length_hexDigest
  have htake : ∀ other otherKey, (fileName other otherKey true).toList.take 64 =
      Sha256.hexDigest (otherKey.getD other) := fun other otherKey => by
    rw [toList_fileName, List.take_left' (hlength _)]
  have hdrop : ∀ other otherKey, (fileName other otherKey true).toList.drop 64 =
      ending other.toList := fun other otherKey => by
    rw [toList_fileName, List.drop_left' (hlength _)]
  simp only [name, htake, hdrop]
  refine ⟨⟨trivial, hlength _, fun c => isHexDigit_of_mem_hexDigest⟩, ending_cases _, fun letters => ?_,
    fileName_is_one_part url key, fun other otherKey => ⟨fun h => by rw [h], fun h => ?_⟩⟩
  · rw [ending_eq_cons_iff, extension?_eq_some_iff]
  · rw [ending, ending, extension?, extension?, h]

/-- Dots in folders and in queries are not those of extensions. -/
example : ending "https://x.test/v1.2/photo.JPG?from=a.png#top.gif".toList = ".jpg".toList := by
  decide

end MessageCard.Bitmap
