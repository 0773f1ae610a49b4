import Mathlib.Data.List.AList
import Mathlib.Data.List.Lex
import Mathlib.Data.List.Sort
import Waxseal.Base.JsonRoundTrip
import Waxseal.Domain.Segments

/-!
# Segment files

The names in `sources/rotation.py`: which files of a directory are segments of which trail,
which one a writer appends to, and in what order a reader lists them.

A directory is an association of names and contents.  The order in which it is iterated is
the order of its entries; nothing below depends on it.  Everything the module computes
rests on one characterisation of the numbered names (`segmentOrdinal_eq_some_iff`).
-/

namespace Waxseal

open Json

/-! ## Numbered names -/

/-- The name of segment `ordinal` of `stem`, for an ordinal that has one. -/
def segmentFile (stem : PyStr) (ordinal : ℕ) : PyStr :=
  stem ++ str "." ++ (strNat ordinal).leftpad segmentDigits (.ofChar '0') ++ segmentSuffix

theorem segmentName_of_lt {stem : PyStr} {ordinal : ℕ} (h : ordinal < 10 ^ segmentDigits) :
    segmentName stem ordinal = .ok (segmentFile stem ordinal) := by
  have hmax : ¬ (ordinal : ℤ) > 10 ^ segmentDigits - 1 := by
    have hcast : (ordinal : ℤ) < 10 ^ segmentDigits := by exact_mod_cast h
    omega
  rw [segmentName, if_neg (by omega), if_neg hmax]
  rfl

theorem segmentName_eq_ok {stem name : PyStr} {ordinal : ℕ}
    (h : segmentName stem ordinal = .ok name) :
    ordinal < 10 ^ segmentDigits ∧ name = segmentFile stem ordinal := by
  unfold segmentName at h
  split_ifs at h with hneg hmax
  refine ⟨?_, (Except.ok.inj h).symm⟩
  have hle : (ordinal : ℤ) < 10 ^ segmentDigits := by omega
  exact_mod_cast hle

/-- What digits stand for, one digit more. -/
theorem ofDigits_append_singleton (s : PyStr) (c : CodePoint) :
    ofDigits (s ++ [c]) = 10 * ofDigits s + (c.val - 0x30) := by
  rw [ofDigits, List.foldl_append]
  rfl

theorem isDigit_iff {c : CodePoint} : isDigit c = true ↔ 0x30 ≤ c.val ∧ c.val ≤ 0x39 := by
  simp [isDigit]

/-- Digit strings of one length are told apart by their value. -/
theorem ofDigits_injective_of_length {s t : PyStr} (hlen : s.length = t.length)
    (hs : ∀ c ∈ s, isDigit c = true) (ht : ∀ c ∈ t, isDigit c = true)
    (h : ofDigits s = ofDigits t) : s = t := by
  induction s using List.reverseRecOn generalizing t with
  | nil => exact (List.length_eq_zero_iff.mp hlen.symm).symm
  | append_singleton s c ih =>
      rcases List.eq_nil_or_concat' t with rfl | ⟨t, d, rfl⟩
      · simp at hlen
      · rw [List.forall_mem_append, List.forall_mem_singleton, isDigit_iff] at hs ht
        rw [ofDigits_append_singleton, ofDigits_append_singleton] at h
        have hlast : c.val = d.val := by omega
        rw [ih (by simpa using hlen) hs.1 ht.1 (by omega), Fin.ext hlast]

theorem ofDigits_lt {s : PyStr} (hs : ∀ c ∈ s, isDigit c = true) : ofDigits s < 10 ^ s.length := by
  induction s using List.reverseRecOn with
  | nil => decide
  | append_singleton s c ih =>
      rw [List.forall_mem_append, List.forall_mem_singleton, isDigit_iff] at hs
      have := ih hs.1
      rw [ofDigits_append_singleton, List.length_append, List.length_singleton, pow_succ]
      omega

/-- The digits of a name. -/
def paddedOrdinal (ordinal : ℕ) : PyStr :=
  (strNat ordinal).leftpad segmentDigits (.ofChar '0')

theorem isDigit_paddedOrdinal {ordinal : ℕ} : ∀ c ∈ paddedOrdinal ordinal, isDigit c = true := by
  intro c hc
  rcases List.mem_append.mp hc with hc | hc
  · rw [List.eq_of_mem_replicate hc]
    decide
  · exact isDigit_iff.mpr (isDigit_of_mem_strNat hc)

theorem ofDigits_paddedOrdinal (ordinal : ℕ) : ofDigits (paddedOrdinal ordinal) = ordinal :=
  ofDigits_leftpad segmentDigits ordinal

theorem length_paddedOrdinal {ordinal : ℕ} (h : ordinal < 10 ^ segmentDigits) :
    (paddedOrdinal ordinal).length = segmentDigits := by
  rw [paddedOrdinal, List.length_leftpad, max_eq_left (length_strNat_le (by decide) h)]

theorem segmentFile_eq (stem : PyStr) (ordinal : ℕ) :
    segmentFile stem ordinal = stem ++ str "." ++ paddedOrdinal ordinal ++ segmentSuffix := rfl

theorem take_without_suffix (s t : PyStr) : (s ++ t).take ((s ++ t).length - t.length) = s := by
  rw [List.length_append, Nat.add_sub_cancel, List.take_left]

/-- **The numbered names of a stem.** -/
theorem segmentOrdinal_eq_some_iff {name stem : PyStr} {ordinal : ℕ} :
    segmentOrdinal name stem = some ordinal ↔
      ordinal < 10 ^ segmentDigits ∧ name = segmentFile stem ordinal := by
  constructor
  · intro h
    unfold segmentOrdinal at h
    dsimp only at h
    split_ifs at h with hends hmiddle
    obtain ⟨hfront, hback⟩ := hends
    obtain ⟨hlen, hdigits⟩ := hmiddle
    obtain ⟨rest, rfl⟩ := List.isPrefixOf_iff_prefix.mp hfront
    obtain ⟨init, hinit⟩ := List.isSuffixOf_iff_suffix.mp hback
    have htake : (stem ++ str "." ++ rest).take ((stem ++ str "." ++ rest).length
        - segmentSuffix.length) = init := by
      rw [← hinit, take_without_suffix]
    rw [htake] at hlen hdigits h
    have hmid : rest = init.drop (stem ++ str ".").length ++ segmentSuffix := by
      have hdrop := congrArg (List.drop (stem ++ str ".").length) hinit
      have hle : (stem ++ str ".").length ≤ init.length := by
        have hfive : segmentDigits = 5 := rfl
        rw [List.length_drop] at hlen
        omega
      rw [List.drop_append_of_le_length hle, List.drop_left] at hdrop
      exact hdrop.symm
    generalize init.drop (stem ++ str ".").length = middle at hlen hdigits h hmid
    obtain rfl := Option.some.inj h
    have hdigit : ∀ c ∈ middle, isDigit c = true := List.all_eq_true.mp hdigits
    have hlt : ofDigits middle < 10 ^ segmentDigits := hlen ▸ ofDigits_lt hdigit
    refine ⟨hlt, ?_⟩
    rw [segmentFile_eq, hmid, ← List.append_assoc]
    congr 2
    exact ofDigits_injective_of_length (hlen.trans (length_paddedOrdinal hlt).symm) hdigit
      isDigit_paddedOrdinal (ofDigits_paddedOrdinal _).symm
  · rintro ⟨hlt, rfl⟩
    have hfront : (stem ++ str ".").isPrefixOf (segmentFile stem ordinal) = true := by
      rw [List.isPrefixOf_iff_prefix, segmentFile_eq, List.append_assoc]
      exact List.prefix_append _ _
    have hback : segmentSuffix.isSuffixOf (segmentFile stem ordinal) = true := by
      rw [List.isSuffixOf_iff_suffix]
      exact List.suffix_append _ _
    have hmiddle : ((segmentFile stem ordinal).take ((segmentFile stem ordinal).length
        - segmentSuffix.length)).drop (stem ++ str ".").length = paddedOrdinal ordinal := by
      rw [segmentFile_eq, take_without_suffix, List.drop_left]
    simp only [segmentOrdinal, hfront, hback, and_self, if_true, hmiddle, ofDigits_paddedOrdinal,
      length_paddedOrdinal hlt, List.all_eq_true.mpr isDigit_paddedOrdinal]

theorem segmentIdentity_append (s : PyStr) : segmentIdentity (s ++ segmentSuffix) = s := by
  have hback : segmentSuffix.isSuffixOf (s ++ segmentSuffix) = true :=
    List.isSuffixOf_iff_suffix.mpr (List.suffix_append _ _)
  rw [segmentIdentity, if_pos hback, take_without_suffix]

/-- Names with the suffix are told apart by their identity. -/
theorem eq_of_segmentIdentity_eq {name name' : PyStr} (h : segmentSuffix <:+ name)
    (h' : segmentSuffix <:+ name') (hid : segmentIdentity name = segmentIdentity name') :
    name = name' := by
  obtain ⟨s, rfl⟩ := h
  obtain ⟨s', rfl⟩ := h'
  rw [segmentIdentity_append, segmentIdentity_append] at hid
  rw [hid]

theorem segmentSuffix_suffix_segmentFile (stem : PyStr) (ordinal : ℕ) :
    segmentSuffix <:+ segmentFile stem ordinal := List.suffix_append _ _

theorem segmentFile_inj {stem : PyStr} {m n : ℕ}
    (h : segmentFile stem m = segmentFile stem n) : m = n := by
  have hdigits := List.append_cancel_left (List.append_cancel_right
    (segmentFile_eq stem m ▸ segmentFile_eq stem n ▸ h))
  rw [← ofDigits_paddedOrdinal m, hdigits, ofDigits_paddedOrdinal]

/-! ## Stems -/

/-- `_stem_of(name)`. -/
def stemOf (name : PyStr) : Option PyStr :=
  let head := beforeLast (.ofChar '.') (segmentIdentity name)
  if head = [] then none
  else if (segmentOrdinal name head).isSome then some head else none

/-- `_dir_and_stem(path)`, the stem. -/
def baseStem (base : PyStr) : PyStr := (stemOf base).getD (segmentIdentity base)

theorem beforeLast_append {sep : CodePoint} {t : PyStr} (h : sep ∉ t) (s : PyStr) :
    beforeLast sep (s ++ sep :: t) = s := by
  have hdrop : ∀ t : PyStr, sep ∉ t →
      (s ++ sep :: t).rdropWhile (fun c => decide (c ≠ sep)) = s ++ [sep] := by
    intro t
    induction t using List.reverseRecOn with
    | nil => exact fun _ => List.rdropWhile_concat_neg (fun c => decide (c ≠ sep)) _ _ (by simp)
    | append_singleton t c ih =>
        intro h
        have hc : decide (c ≠ sep) = true := decide_eq_true fun heq => h (by simp [heq])
        rw [← List.cons_append, ← List.append_assoc, List.rdropWhile_concat_pos (fun c => decide (c ≠ sep)) _ _ hc]
        exact ih fun hmem => h (List.mem_append_left _ hmem)
  rw [beforeLast, hdrop t h, List.dropLast_concat]

/-- **The names that have a stem.** -/
theorem stemOf_eq_some_iff {name stem : PyStr} :
    stemOf name = some stem ↔
      stem ≠ [] ∧ ∃ ordinal < 10 ^ segmentDigits, name = segmentFile stem ordinal := by
  constructor
  · intro h
    unfold stemOf at h
    dsimp only at h
    split_ifs at h with hne hsome
    obtain rfl := Option.some.inj h
    obtain ⟨ordinal, hordinal⟩ := Option.isSome_iff_exists.mp hsome
    exact ⟨hne, ordinal, segmentOrdinal_eq_some_iff.mp hordinal⟩
  · rintro ⟨hne, ordinal, hlt, rfl⟩
    have hdot : CodePoint.ofChar '.' ∉ paddedOrdinal ordinal := fun hmem =>
      absurd (isDigit_paddedOrdinal _ hmem) (by decide)
    have hhead : beforeLast (.ofChar '.') (segmentIdentity (segmentFile stem ordinal)) = stem := by
      rw [segmentFile_eq, segmentIdentity_append, List.append_assoc]
      exact beforeLast_append hdot stem
    have hsome : segmentOrdinal (segmentFile stem ordinal) stem = some ordinal :=
      segmentOrdinal_eq_some_iff.mpr ⟨hlt, rfl⟩
    simp only [stemOf, hhead, hne, if_false, hsome, Option.isSome_some, if_true]

theorem stemOf_segmentFile {stem : PyStr} (hne : stem ≠ []) {ordinal : ℕ}
    (hlt : ordinal < 10 ^ segmentDigits) : stemOf (segmentFile stem ordinal) = some stem :=
  stemOf_eq_some_iff.mpr ⟨hne, ordinal, hlt, rfl⟩

/-- A base name with the suffix is the unnumbered file of its stem, or a numbered one. -/
theorem base_cases {base : PyStr} (h : segmentSuffix <:+ base) :
    base = baseStem base ++ segmentSuffix ∨
      ∃ ordinal < 10 ^ segmentDigits, base = segmentFile (baseStem base) ordinal := by
  obtain ⟨s, rfl⟩ := h
  cases hstem : stemOf (s ++ segmentSuffix) with
  | none => exact .inl (by rw [baseStem, hstem, Option.getD_none, segmentIdentity_append])
  | some stem =>
      obtain ⟨-, ordinal, hlt, hname⟩ := stemOf_eq_some_iff.mp hstem
      exact .inr ⟨ordinal, hlt, by rw [baseStem, hstem, Option.getD_some, hname]⟩

/-! ## Directories -/

/-- The files of one directory: their names and contents. -/
abbrev Directory := AList fun _ : PyStr => Bytes

/-- What a reader finds in a file; a file that is not there has nothing. -/
def fileOf (dir : Directory) (name : PyStr) : Bytes := (dir.lookup name).getD []

/-- `_size(path)`. -/
def fileSize (dir : Directory) (name : PyStr) : ℕ := (fileOf dir name).length

/-- `_ordinals(directory, stem)`. -/
def ordinals (dir : Directory) (stem : PyStr) : List ℕ :=
  dir.keys.filterMap fun name => segmentOrdinal name stem

/-- `_active(directory, stem, fallback)`. -/
def activeIn (dir : Directory) (stem fallback : PyStr) : Except PyErr PyStr :=
  match (ordinals dir stem).max? with
  | some ordinal => segmentName stem ordinal
  | none => .ok (if stem ++ segmentSuffix ∈ dir then stem ++ segmentSuffix else fallback)

/-- `active_segment(base)`. -/
def activeSegment (dir : Directory) (base : PyStr) : Except PyErr PyStr :=
  activeIn dir (baseStem base) base

/-- `_next_ordinal(directory, stem)`. -/
def nextOrdinal (dir : Directory) (stem : PyStr) : ℕ :=
  match (ordinals dir stem).max? with
  | some ordinal => ordinal + 1
  | none => 0

@[simp] theorem fileOf_insert (dir : Directory) (name : PyStr) (file : Bytes) :
    fileOf (dir.insert name file) name = file := by
  rw [fileOf, AList.lookup_insert, Option.getD_some]

theorem fileOf_insert_ne {dir : Directory} {name name' : PyStr} (file : Bytes)
    (h : name ≠ name') : fileOf (dir.insert name' file) name = fileOf dir name := by
  rw [fileOf, AList.lookup_insert_ne h, fileOf]

theorem fileOf_of_notMem {dir : Directory} {name : PyStr} (h : name ∉ dir) :
    fileOf dir name = [] := by
  rw [fileOf, AList.lookup_eq_none.mpr h, Option.getD_none]

theorem mem_ordinals {dir : Directory} {stem : PyStr} {ordinal : ℕ} :
    ordinal ∈ ordinals dir stem ↔
      ordinal < 10 ^ segmentDigits ∧ segmentFile stem ordinal ∈ dir := by
  simp only [ordinals, List.mem_filterMap, segmentOrdinal_eq_some_iff, AList.mem_keys]
  constructor
  · rintro ⟨name, hmem, hlt, rfl⟩
    exact ⟨hlt, hmem⟩
  · rintro ⟨hlt, hmem⟩
    exact ⟨_, hmem, hlt, rfl⟩

/-- The active segment is the newest numbered one, else the unnumbered file of the stem,
else the base itself. -/
theorem activeIn_cases {dir : Directory} {stem fallback name : PyStr}
    (h : activeIn dir stem fallback = .ok name) :
    (∃ ordinal ∈ ordinals dir stem, (∀ n ∈ ordinals dir stem, n ≤ ordinal) ∧
        name = segmentFile stem ordinal ∧ nextOrdinal dir stem = ordinal + 1) ∨
      (ordinals dir stem = [] ∧ nextOrdinal dir stem = 0 ∧
        (name = stem ++ segmentSuffix ∧ name ∈ dir ∨ name = fallback)) := by
  unfold activeIn at h
  unfold nextOrdinal
  split at h
  · next ordinal hmax =>
      obtain ⟨hmem, hle⟩ := List.max?_eq_some_iff.mp hmax
      have hname := (segmentName_eq_ok h).2
      exact .inl ⟨ordinal, hmem, hle, hname, rfl⟩
  · next hmax =>
      refine .inr ⟨List.max?_eq_none_iff.mp hmax, rfl, ?_⟩
      have hname := Except.ok.inj h
      split_ifs at hname with hmem
      · exact .inl ⟨hname.symm, hname ▸ hmem⟩
      · exact .inr hname.symm

theorem lt_nextOrdinal {dir : Directory} {stem : PyStr} {ordinal : ℕ}
    (h : ordinal ∈ ordinals dir stem) : ordinal < nextOrdinal dir stem := by
  unfold nextOrdinal
  split
  · next n hmax => exact Nat.lt_succ_of_le ((List.max?_eq_some_iff.mp hmax).2 ordinal h)
  · next hmax =>
      rw [List.max?_eq_none_iff.mp hmax] at h
      exact absurd h List.not_mem_nil

/-! ## Discovery -/

/-- The keys of `numbered`, sorted. -/
def numberedStems (dir : Directory) : List PyStr :=
  (dir.keys.filterMap stemOf).dedup.insertionSort (· ≤ ·)

/-- The order of an ordinal and a path. -/
def SegmentLe (p q : ℕ × PyStr) : Prop := p.1 < q.1 ∨ p.1 = q.1 ∧ p.2 ≤ q.2

instance : DecidableRel SegmentLe := fun p q =>
  inferInstanceAs (Decidable (p.1 < q.1 ∨ p.1 = q.1 ∧ p.2 ≤ q.2))

/-- `sorted(numbered[stem])`. -/
def numberedSegments (dir : Directory) (stem : PyStr) : List (ℕ × PyStr) :=
  (dir.keys.filterMap fun name =>
    if stemOf name = some stem then (segmentOrdinal name stem).map fun n => (n, name)
    else none).insertionSort SegmentLe

/-- `discover_segments(directory)`. -/
def discoverSegments (dir : Directory) : List PyStr :=
  (numberedStems dir).flatMap fun stem =>
    (if stem ++ segmentSuffix ∈ dir then [stem ++ segmentSuffix] else [])
      ++ (numberedSegments dir stem).map Prod.snd

theorem mem_numberedStems {dir : Directory} {stem : PyStr} :
    stem ∈ numberedStems dir ↔ ∃ name ∈ dir, stemOf name = some stem := by
  simp only [numberedStems, List.mem_insertionSort, List.mem_dedup, List.mem_filterMap, AList.mem_keys]

theorem mem_numberedSegments {dir : Directory} {stem : PyStr} {p : ℕ × PyStr} :
    p ∈ numberedSegments dir stem ↔ p.2 ∈ dir ∧ stem ≠ [] ∧ p.1 < 10 ^ segmentDigits ∧
      p.2 = segmentFile stem p.1 := by
  simp only [numberedSegments, List.mem_insertionSort, List.mem_filterMap, AList.mem_keys]
  constructor
  · rintro ⟨name, hmem, h⟩
    split_ifs at h with hstem
    obtain ⟨n, hn, rfl⟩ := Option.map_eq_some_iff.mp h
    exact ⟨hmem, (stemOf_eq_some_iff.mp hstem).1, segmentOrdinal_eq_some_iff.mp hn⟩
  · rintro ⟨hmem, hne, hlt, hname⟩
    refine ⟨p.2, hmem, ?_⟩
    rw [hname, if_pos (stemOf_segmentFile hne hlt), segmentOrdinal_eq_some_iff.mpr ⟨hlt, rfl⟩]
    exact congrArg some (Prod.ext rfl hname.symm)

/-- **What is listed**: the numbered files, and the unnumbered file of a stem that has a
numbered one. -/
theorem mem_discoverSegments {dir : Directory} {name : PyStr} :
    name ∈ discoverSegments dir ↔ name ∈ dir ∧ ((stemOf name).isSome ∨
      ∃ stem, name = stem ++ segmentSuffix ∧ ∃ numbered ∈ dir, stemOf numbered = some stem) := by
  simp only [discoverSegments, List.mem_flatMap, List.mem_append, List.mem_map,
    mem_numberedStems, mem_numberedSegments]
  constructor
  · rintro ⟨stem, hstem, hname | ⟨p, ⟨hmem, hne, hlt, hp⟩, rfl⟩⟩
    · split_ifs at hname with hmem
      · obtain rfl := List.mem_singleton.mp hname
        exact ⟨hmem, .inr ⟨stem, rfl, hstem⟩⟩
      · exact absurd hname List.not_mem_nil
    · rw [hp] at hmem ⊢
      exact ⟨hmem, .inl (by rw [stemOf_segmentFile hne hlt]; rfl)⟩
  · rintro ⟨hmem, hnumbered | ⟨stem, rfl, hstem⟩⟩
    · obtain ⟨stem, hstem⟩ := Option.isSome_iff_exists.mp hnumbered
      obtain ⟨hne, ordinal, hlt, hname⟩ := stemOf_eq_some_iff.mp hstem
      exact ⟨stem, ⟨name, hmem, hstem⟩, .inr ⟨(ordinal, name), ⟨hmem, hne, hlt, hname⟩, rfl⟩⟩
    · exact ⟨stem, hstem, .inl (by rw [if_pos hmem]; exact List.mem_singleton_self _)⟩

/-- Everything listed has the suffix. -/
theorem segmentSuffix_suffix_of_mem {dir : Directory} {name : PyStr}
    (h : name ∈ discoverSegments dir) : segmentSuffix <:+ name := by
  obtain ⟨-, hnumbered | ⟨stem, rfl, -⟩⟩ := mem_discoverSegments.mp h
  · obtain ⟨stem, hstem⟩ := Option.isSome_iff_exists.mp hnumbered
    obtain ⟨-, ordinal, -, rfl⟩ := stemOf_eq_some_iff.mp hstem
    exact segmentSuffix_suffix_segmentFile stem ordinal
  · exact List.suffix_append _ _

end Waxseal
