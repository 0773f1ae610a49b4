import Mathlib.Order.Monotone.Basic
import Waxseal.Sources.OneTrail

/-!
# Segment naming

Three functions read the names of one directory: `discover_segments` lists them, `active_segment`
picks where the next append goes, `_next_ordinal` picks the name of the next file.  Zero padding
makes the order of names the order of ordinals (`strictMonoOn_segmentFile`), and a new ordinal is
behind every one that is there.

The listing agrees with the choice of the active segment for a stem that has a name, as long as no
numbered file of the stem is itself the unnumbered file of another trail: such a file is listed a
second time, behind the newest one (`listedFor_getLast?_iff`).  The stem without a name has numbered
files, and `_stem_of` finds no stem in them.
-/

namespace Waxseal

open Json

/-! ## Lists in order -/

/-- The greatest element of a list in order is its last. -/
theorem getLast?_of_pairwise {α : Type*} {r : α → α → Prop} {l : List α} {x : α}
    (hl : l.Pairwise r) (hx : x ∈ l) (hmax : ∀ y ∈ l, r x y → y = x) : l.getLast? = some x := by
  rcases List.eq_nil_or_concat' l with rfl | ⟨init, last, rfl⟩
  · exact absurd hx List.not_mem_nil
  · rw [List.getLast?_concat]
    rcases List.mem_append.mp hx with hinit | hlast
    · have hrel := (List.pairwise_append.mp hl).2.2 x hinit last List.mem_cons_self
      rw [hmax last (List.mem_append_right _ List.mem_cons_self) hrel]
    · rw [List.mem_singleton.mp hlast]

/-- What is listed last comes from the last element that lists anything. -/
theorem getLast?_flatMap {α β : Type*} [Preorder α] {l : List α} {f : α → List β} {a : α} {x : β}
    (hl : l.Pairwise (· < ·)) (ha : a ∈ l) (hlast : (f a).getLast? = some x)
    (hlater : ∀ b ∈ l, a < b → f b = []) : (l.flatMap f).getLast? = some x := by
  obtain ⟨before, behind, rfl⟩ := List.append_of_mem ha
  have hnone : behind.flatMap f = [] := by
    refine List.flatMap_eq_nil_iff.mpr fun b hb => ?_
    have hrel := (List.pairwise_append.mp hl).2.1
    exact hlater b (List.mem_append_right _ (List.mem_cons_of_mem _ hb))
      ((List.pairwise_cons.mp hrel).1 b hb)
  rw [List.flatMap_append, List.flatMap_cons, hnone, List.append_nil, List.getLast?_append, hlast,
    Option.some_or]

/-! ## Names in order -/

theorem ofDigits_cons (c : CodePoint) (s : PyStr) :
    ofDigits (c :: s) = (c.val - 0x30) * 10 ^ s.length + ofDigits s := by
  induction s using List.reverseRecOn with
  | nil => simp [ofDigits]
  | append_singleton s d ih =>
      rw [← List.cons_append, ofDigits_append_singleton, ih, ofDigits_append_singleton,
        List.length_append, List.length_singleton, pow_succ]
      ring

/-- Digit strings of one length are ordered by their value, whatever follows them. -/
theorem append_lt_append_of_ofDigits {s t : PyStr} (u v : PyStr) (hlen : s.length = t.length)
    (hs : ∀ c ∈ s, isDigit c = true) (ht : ∀ c ∈ t, isDigit c = true)
    (h : ofDigits s < ofDigits t) : s ++ u < t ++ v := by
  induction s generalizing t with
  | nil =>
      obtain rfl := List.length_eq_zero_iff.mp hlen.symm
      exact absurd h (lt_irrefl _)
  | cons c s ih =>
      cases t with
      | nil => cases hlen
      | cons d t =>
          have hlen' : s.length = t.length := Nat.succ.inj hlen
          obtain ⟨hc, hs'⟩ := List.forall_mem_cons.mp hs
          obtain ⟨hd, ht'⟩ := List.forall_mem_cons.mp ht
          have hsmall := ofDigits_lt ht'
          rw [isDigit_iff] at hc hd
          rw [ofDigits_cons, ofDigits_cons, hlen'] at h
          rw [List.cons_append, List.cons_append, List.cons_lt_cons_iff]
          rcases lt_trichotomy c d with hlt | rfl | hgt
          · exact .inl hlt
          · exact .inr ⟨rfl, ih hlen' hs' ht' (Nat.lt_of_add_lt_add_left h)⟩
          · have hstep : (d.val - 0x30) + 1 ≤ c.val - 0x30 := by
              have hval : d.val < c.val := hgt
              omega
            have hmul := Nat.mul_le_mul_right (10 ^ t.length) hstep
            rw [Nat.add_mul, Nat.one_mul] at hmul
            omega

/-- The identity of a numbered segment. -/
def numberedIdentity (stem : PyStr) (ordinal : ℕ) : PyStr := stem ++ str "." ++ paddedOrdinal ordinal

theorem paddedOrdinal_append_lt {m n : ℕ} (hn : n < 10 ^ segmentDigits) (h : m < n) (u : PyStr) :
    paddedOrdinal m ++ u < paddedOrdinal n ++ u := by
  refine append_lt_append_of_ofDigits u u ?_ isDigit_paddedOrdinal isDigit_paddedOrdinal ?_
  · rw [length_paddedOrdinal (h.trans hn), length_paddedOrdinal hn]
  · rwa [ofDigits_paddedOrdinal, ofDigits_paddedOrdinal]

/-- **Names are ordered as their ordinals.** -/
theorem strictMonoOn_segmentFile (stem : PyStr) :
    StrictMonoOn (segmentFile stem) (Set.Iio (10 ^ segmentDigits)) := by
  intro m _ n hn h
  rw [segmentFile_eq, segmentFile_eq, List.append_assoc _ (paddedOrdinal m),
    List.append_assoc _ (paddedOrdinal n)]
  exact List.Lex.append_left _ (paddedOrdinal_append_lt hn h _) _

theorem strictMonoOn_numberedIdentity (stem : PyStr) :
    StrictMonoOn (numberedIdentity stem) (Set.Iio (10 ^ segmentDigits)) := by
  intro m _ n hn h
  have hpadded := paddedOrdinal_append_lt hn h []
  rw [List.append_nil, List.append_nil] at hpadded
  exact List.Lex.append_left _ hpadded _

theorem lt_numberedIdentity (stem : PyStr) (ordinal : ℕ) : stem < numberedIdentity stem ordinal := by
  have hnil : ([] : PyStr) < str "." ++ paddedOrdinal ordinal := List.nil_lt_cons _ _
  have h := List.Lex.append_left _ hnil stem
  rwa [List.append_nil, ← List.append_assoc] at h

/-! ## The listing of one stem -/

/-- What `discover_segments` lists for a stem it found. -/
def listedBlock (dir : Directory) (stem : PyStr) : List PyStr :=
  (if stem ++ segmentSuffix ∈ dir then [stem ++ segmentSuffix] else [])
    ++ (numberedSegments dir stem).map Prod.snd

/-- `path.name == stem + SEGMENT_SUFFIX or segment_ordinal(path.name, stem) is not None`. -/
def IsSegmentOf (stem name : PyStr) : Prop :=
  name = stem ++ segmentSuffix ∨ (segmentOrdinal name stem).isSome

instance (stem name : PyStr) : Decidable (IsSegmentOf stem name) :=
  inferInstanceAs (Decidable (_ ∨ _))

/-- The paths of `discover_segments(directory)` that are segments of a stem, as `preflight` picks
them. -/
def listedFor (dir : Directory) (stem : PyStr) : List PyStr :=
  (discoverSegments dir).filter fun name => IsSegmentOf stem name

/-- A numbered segment that is the unnumbered file of another trail of the directory. -/
def Relisted (dir : Directory) (stem : PyStr) (ordinal : ℕ) : Prop :=
  ordinal ∈ ordinals dir stem ∧ numberedIdentity stem ordinal ∈ numberedStems dir

theorem listedFor_eq (dir : Directory) (stem : PyStr) :
    listedFor dir stem = (numberedStems dir).flatMap fun other =>
      (listedBlock dir other).filter fun name => IsSegmentOf stem name := List.filter_flatMap

theorem pairwise_numberedStems (dir : Directory) : (numberedStems dir).Pairwise (· < ·) := by
  have hnodup : (numberedStems dir).Nodup :=
    (List.perm_insertionSort _ _).nodup_iff.mpr (List.nodup_dedup _)
  exact ((List.pairwise_insertionSort (· ≤ ·) (dir.keys.filterMap stemOf).dedup).and hnodup).imp
    fun h => lt_of_le_of_ne h.1 h.2

theorem mem_numberedStems_iff {dir : Directory} {stem : PyStr} :
    stem ∈ numberedStems dir ↔ stem ≠ [] ∧ ordinals dir stem ≠ [] := by
  rw [mem_numberedStems]
  constructor
  · rintro ⟨name, hname, hstem⟩
    obtain ⟨hne, ordinal, hlt, rfl⟩ := stemOf_eq_some_iff.mp hstem
    exact ⟨hne, List.ne_nil_of_mem (mem_ordinals.mpr ⟨hlt, hname⟩)⟩
  · rintro ⟨hne, hordinals⟩
    obtain ⟨ordinal, hordinal⟩ := List.exists_mem_of_ne_nil _ hordinals
    obtain ⟨hlt, hmem⟩ := mem_ordinals.mp hordinal
    exact ⟨_, hmem, stemOf_segmentFile hne hlt⟩

theorem mem_listedBlock {dir : Directory} {stem name : PyStr} (h : name ∈ listedBlock dir stem) :
    name ∈ dir ∧ (name = stem ++ segmentSuffix ∨
      ∃ ordinal < 10 ^ segmentDigits, name = segmentFile stem ordinal) := by
  rcases List.mem_append.mp h with hbase | hnumbered
  · split_ifs at hbase with hmem
    · obtain rfl := List.mem_singleton.mp hbase
      exact ⟨hmem, .inl rfl⟩
    · exact absurd hbase List.not_mem_nil
  · obtain ⟨p, hp, rfl⟩ := List.mem_map.mp hnumbered
    obtain ⟨hmem, -, hlt, hname⟩ := mem_numberedSegments.mp hp
    exact ⟨hmem, .inr ⟨p.1, hlt, hname⟩⟩

theorem isSegmentOf_iff {stem name : PyStr} :
    IsSegmentOf stem name ↔ name = stem ++ segmentSuffix ∨
      ∃ ordinal < 10 ^ segmentDigits, name = segmentFile stem ordinal := by
  refine or_congr_right ?_
  rw [Option.isSome_iff_exists]
  exact exists_congr fun ordinal => segmentOrdinal_eq_some_iff

theorem stem_eq_of_segmentFile_eq {stem other : PyStr} {m n : ℕ} (hm : m < 10 ^ segmentDigits)
    (hn : n < 10 ^ segmentDigits) (h : segmentFile stem m = segmentFile other n) : stem = other := by
  rw [segmentFile_eq, segmentFile_eq] at h
  have hname := List.append_cancel_right h
  have hstem := (List.append_inj' hname (by rw [length_paddedOrdinal hm, length_paddedOrdinal hn])).1
  exact List.append_cancel_right hstem

/-- Where the segments of a stem are listed: in its own block, in the block of the trail its name
is numbered in, or as the unnumbered file of a trail named after one of its own. -/
theorem block_cases {dir : Directory} {stem other name : PyStr} (hlisted : name ∈ listedBlock dir other)
    (hother : other ∈ numberedStems dir) (h : IsSegmentOf stem name) :
    other = stem ∨ other < stem ∨
      ∃ ordinal, other = numberedIdentity stem ordinal ∧ Relisted dir stem ordinal ∧
        name = segmentFile stem ordinal := by
  obtain ⟨hmem, rfl | ⟨k, hk, rfl⟩⟩ := mem_listedBlock hlisted
  · rcases isSegmentOf_iff.mp h with hbase | ⟨m, hm, hname⟩
    · exact .inl (List.append_cancel_right hbase)
    · obtain rfl : other = numberedIdentity stem m := List.append_cancel_right hname
      exact .inr (.inr ⟨m, rfl, ⟨mem_ordinals.mpr ⟨hm, hmem⟩, hother⟩, rfl⟩)
  · rcases isSegmentOf_iff.mp h with hbase | ⟨m, hm, hname⟩
    · obtain rfl : numberedIdentity other k = stem := List.append_cancel_right hbase
      exact .inr (.inl (lt_numberedIdentity other k))
    · exact .inl (stem_eq_of_segmentFile_eq hk hm hname)

/-- The block of a stem ends with its newest segment. -/
theorem listedBlock_getLast? {dir : Directory} {stem : PyStr} {newest : ℕ} (hne : stem ≠ [])
    (hmem : newest ∈ ordinals dir stem) (hmax : ∀ n ∈ ordinals dir stem, n ≤ newest) :
    (listedBlock dir stem).getLast? = some (segmentFile stem newest) := by
  obtain ⟨hlt, hfile⟩ := mem_ordinals.mp hmem
  have hlast : (numberedSegments dir stem).getLast? = some (newest, segmentFile stem newest) := by
    refine getLast?_of_pairwise (pairwise_numberedSegments dir stem)
      (mem_numberedSegments.mpr ⟨hfile, hne, hlt, rfl⟩) fun p hp hle => ?_
    obtain ⟨hpfile, -, hplt, hname⟩ := mem_numberedSegments.mp hp
    have hpmax : p.1 ≤ newest := hmax p.1 (mem_ordinals.mpr ⟨hplt, hname ▸ hpfile⟩)
    have heq : p.1 = newest := by
      rcases hle with hlt' | ⟨heq, -⟩
      · exact absurd hlt' (not_lt.mpr hpmax)
      · exact heq.symm
    exact Prod.ext heq (hname.trans (by rw [heq]))
  rw [listedBlock, List.getLast?_append, List.getLast?_map, hlast]
  rfl

instance (dir : Directory) (stem : PyStr) (ordinal : ℕ) : Decidable (Relisted dir stem ordinal) :=
  inferInstanceAs (Decidable (_ ∧ _))

section

variable {dir : Directory} {stem : PyStr}

theorem exists_last_relisted {ordinal : ℕ} (h : Relisted dir stem ordinal) :
    ∃ last, Relisted dir stem last ∧ ∀ n, Relisted dir stem n → n ≤ last := by
  have hmem : ∀ n, Relisted dir stem n → n ∈ (ordinals dir stem).filter (Relisted dir stem ·) :=
    fun n hn => List.mem_filter.mpr ⟨hn.1, decide_eq_true hn⟩
  cases hmax : ((ordinals dir stem).filter (Relisted dir stem ·)).max? with
  | none =>
      have hnone := hmem ordinal h
      rw [List.max?_eq_none_iff.mp hmax] at hnone
      exact absurd hnone List.not_mem_nil
  | some last =>
      obtain ⟨hlast, hle⟩ := List.max?_eq_some_iff.mp hmax
      exact ⟨last, of_decide_eq_true (List.mem_filter.mp hlast).2, fun n hn => hle n (hmem n hn)⟩

/-- The segment listed a second time in the last place is the last of all. -/
theorem listedFor_getLast?_of_relisted {last : ℕ} (hlast : Relisted dir stem last)
    (hmax : ∀ n, Relisted dir stem n → n ≤ last) :
    (listedFor dir stem).getLast? = some (segmentFile stem last) := by
  obtain ⟨hordinal, hlisted⟩ := hlast
  obtain ⟨hlt, hfile⟩ := mem_ordinals.mp hordinal
  rw [listedFor_eq]
  refine getLast?_flatMap (pairwise_numberedStems dir) hlisted ?_ ?_
  · have hnumbered : ((numberedSegments dir (numberedIdentity stem last)).map Prod.snd).filter
        (fun name => IsSegmentOf stem name) = [] := by
      refine List.filter_eq_nil_iff.mpr fun name hname hof => ?_
      obtain ⟨p, hp, rfl⟩ := List.mem_map.mp hname
      obtain ⟨-, -, hplt, hpname⟩ := mem_numberedSegments.mp hp
      rcases isSegmentOf_iff.mp (of_decide_eq_true hof) with hbase | ⟨m, hm, hfile'⟩
      · have hstem : numberedIdentity (numberedIdentity stem last) p.1 = stem :=
          List.append_cancel_right (hpname.symm.trans hbase)
        have hbehind := lt_numberedIdentity (numberedIdentity stem last) p.1
        rw [hstem] at hbehind
        exact lt_asymm hbehind (lt_numberedIdentity stem last)
      · have hstem := stem_eq_of_segmentFile_eq hplt hm (hpname.symm.trans hfile')
        exact absurd (lt_numberedIdentity stem last) (by rw [hstem]; exact lt_irrefl _)
    have hself : ∀ name ∈ [segmentFile stem last], decide (IsSegmentOf stem name) = true :=
      List.forall_mem_singleton.mpr
        (decide_eq_true (isSegmentOf_iff.mpr (.inr ⟨last, hlt, rfl⟩)))
    have hbase : numberedIdentity stem last ++ segmentSuffix ∈ dir := hfile
    rw [listedBlock, if_pos hbase, List.filter_append, hnumbered, List.append_nil]
    exact congrArg List.getLast? (List.filter_eq_self.mpr hself)
  · intro other hother hbehind
    refine List.filter_eq_nil_iff.mpr fun name hname hof => ?_
    rcases block_cases hname hother (of_decide_eq_true hof) with rfl | hbefore | ⟨m, rfl, hm, -⟩
    · exact lt_asymm hbehind (lt_numberedIdentity other last)
    · exact lt_asymm hbefore ((lt_numberedIdentity stem last).trans hbehind)
    · have hlater := ((strictMonoOn_numberedIdentity stem).lt_iff_lt hlt
        (mem_ordinals.mp hm.1).1).mp hbehind
      exact absurd (hmax m hm) (not_le.mpr hlater)

theorem listedFor_getLast?_of_none (hnone : ∀ n, ¬ Relisted dir stem n) {newest : ℕ}
    (hne : stem ≠ []) (hmem : newest ∈ ordinals dir stem)
    (hmax : ∀ n ∈ ordinals dir stem, n ≤ newest) :
    (listedFor dir stem).getLast? = some (segmentFile stem newest) := by
  rw [listedFor_eq]
  refine getLast?_flatMap (pairwise_numberedStems dir)
    (mem_numberedStems_iff.mpr ⟨hne, List.ne_nil_of_mem hmem⟩) ?_ ?_
  · have hall : ∀ name ∈ listedBlock dir stem, decide (IsSegmentOf stem name) = true :=
      fun name hname => decide_eq_true (isSegmentOf_iff.mpr (mem_listedBlock hname).2)
    rw [List.filter_eq_self.mpr hall, listedBlock_getLast? hne hmem hmax]
  · intro other hother hbehind
    refine List.filter_eq_nil_iff.mpr fun name hname hof => ?_
    rcases block_cases hname hother (of_decide_eq_true hof) with rfl | hbefore | ⟨m, -, hm, -⟩
    · exact lt_irrefl _ hbehind
    · exact lt_asymm hbefore hbehind
    · exact hnone m hm

theorem listedFor_eq_nil_of_none (hnone : ∀ n, ¬ Relisted dir [] n) : listedFor dir [] = [] := by
  rw [listedFor_eq, List.flatMap_eq_nil_iff]
  intro other hother
  refine List.filter_eq_nil_iff.mpr fun name hname hof => ?_
  rcases block_cases hname hother (of_decide_eq_true hof) with rfl | hbefore | ⟨m, -, hm, -⟩
  · exact (mem_numberedStems_iff.mp hother).1 rfl
  · exact List.not_lt_nil _ hbefore
  · exact hnone m hm

/-- The stem has a name, and none of its segments is the first file of another trail; or the newest
one is. -/
def NewestListedLast (dir : Directory) (stem : PyStr) (newest : ℕ) : Prop :=
  Relisted dir stem newest ∨ stem ≠ [] ∧ ∀ n, ¬ Relisted dir stem n

/-- **When the newest segment is listed last.** -/
theorem listedFor_getLast?_iff {newest : ℕ} (hmem : newest ∈ ordinals dir stem)
    (hmax : ∀ n ∈ ordinals dir stem, n ≤ newest) :
    (listedFor dir stem).getLast? = some (segmentFile stem newest) ↔
      NewestListedLast dir stem newest := by
  by_cases hany : ∃ n, Relisted dir stem n
  · obtain ⟨n, hn⟩ := hany
    obtain ⟨last, hlast, hle⟩ := exists_last_relisted hn
    rw [listedFor_getLast?_of_relisted hlast hle]
    constructor
    · intro h
      rw [segmentFile_inj (Option.some.inj h)] at hlast
      exact .inl hlast
    · rintro (hnewest | ⟨-, hnone⟩)
      · rw [le_antisymm (hmax last hlast.1) (hle newest hnewest)]
      · exact absurd hlast (hnone last)
  · have hnone : ∀ n, ¬ Relisted dir stem n := fun n hn => hany ⟨n, hn⟩
    by_cases hne : stem = []
    · subst hne
      rw [listedFor_eq_nil_of_none hnone]
      constructor
      · intro h
        cases h
      · rintro (hnewest | ⟨hne, -⟩)
        · exact absurd hnewest (hnone newest)
        · exact absurd rfl hne
    · exact ⟨fun _ => .inr ⟨hne, hnone⟩, fun _ => listedFor_getLast?_of_none hnone hne hmem hmax⟩

end

/-! ## What the names are for -/

/-- Every stem is the stem of a base. -/
theorem exists_baseStem_eq (stem : PyStr) : ∃ base, baseStem base = stem := by
  by_cases hne : stem = []
  · exact ⟨segmentSuffix, by rw [hne]; rfl⟩
  · refine ⟨segmentFile stem 0, ?_⟩
    rw [baseStem, stemOf_segmentFile hne (by decide), Option.getD_some]

theorem exists_newest {dir : Directory} {stem : PyStr} (h : ordinals dir stem ≠ []) :
    ∃ newest ∈ ordinals dir stem, (∀ n ∈ ordinals dir stem, n ≤ newest) ∧
      (ordinals dir stem).max? = some newest := by
  cases hmax : (ordinals dir stem).max? with
  | none => exact absurd (List.max?_eq_none_iff.mp hmax) h
  | some newest =>
      obtain ⟨hmem, hle⟩ := List.max?_eq_some_iff.mp hmax
      exact ⟨newest, hmem, hle, rfl⟩

theorem activeSegment_of_newest {dir : Directory} {base : PyStr} {newest : ℕ}
    (hmem : newest ∈ ordinals dir (baseStem base))
    (hmax : (ordinals dir (baseStem base)).max? = some newest) :
    activeSegment dir base = .ok (segmentFile (baseStem base) newest) := by
  rw [activeSegment, activeIn, hmax]
  exact segmentName_of_lt (mem_ordinals.mp hmem).1

/-- The names of a directory hang together for a stem: names and ordinals are two ways to say the
same, names are in the order of ordinals, the listing ends where the next append goes, and the next
ordinal is free and behind all the others. -/
structure SegmentNaming (dir : Directory) (stem : PyStr) : Prop where
  named : ∀ n : ℤ, 0 ≤ n → n ≤ 10 ^ segmentDigits - 1 →
    ∃ name, segmentName stem n = .ok name ∧ segmentOrdinal name stem = some n.toNat
  ordered : ∀ (m n : ℤ) (name name' : PyStr), segmentName stem m = .ok name →
    segmentName stem n = .ok name' → (name < name' ↔ m < n)
  active_last : ordinals dir stem ≠ [] → ∀ base, baseStem base = stem →
    ∃ name, activeSegment dir base = .ok name ∧ (listedFor dir stem).getLast? = some name
  next_behind : ∀ name ∈ dir, ∀ n, segmentOrdinal name stem = some n → n < nextOrdinal dir stem
  next_fresh : ∀ name, segmentName stem (nextOrdinal dir stem) = .ok name →
    name ∉ dir ∧ ∀ other ∈ dir, (segmentOrdinal other stem).isSome → other < name

theorem exists_nat_of_segmentName {stem name : PyStr} {n : ℤ} (h : segmentName stem n = .ok name) :
    ∃ k < 10 ^ segmentDigits, n = (k : ℕ) ∧ name = segmentFile stem k := by
  have hpos : 0 ≤ n := by
    by_contra hneg
    rw [segmentName, if_pos (by omega)] at h
    cases h
  obtain ⟨k, rfl⟩ := Int.eq_ofNat_of_zero_le hpos
  obtain ⟨hlt, hname⟩ := segmentName_eq_ok h
  exact ⟨k, hlt, rfl, hname⟩

/-- **Naming holds together exactly when the newest segment is listed last**, and the block of a
stem that has a name always ends with the segment the next append goes to. -/
theorem segmentNaming_iff (dir : Directory) (stem : PyStr) :
    (SegmentNaming dir stem ↔ ∀ newest ∈ ordinals dir stem, (∀ n ∈ ordinals dir stem, n ≤ newest) →
      NewestListedLast dir stem newest) ∧
    (stem ≠ [] → ordinals dir stem ≠ [] → ∀ base, baseStem base = stem →
      ∃ name, activeSegment dir base = .ok name ∧ (listedBlock dir stem).getLast? = some name) := by
  refine ⟨⟨?_, ?_⟩, ?_⟩
  · intro h newest hmem hmax
    obtain ⟨base, rfl⟩ := exists_baseStem_eq stem
    have hne := List.ne_nil_of_mem hmem
    obtain ⟨greatest, hgreatest, hle, hfirst⟩ := exists_newest hne
    obtain rfl : greatest = newest := le_antisymm (hmax _ hgreatest) (hle _ hmem)
    obtain ⟨name, hactive, hlast⟩ := h.active_last hne base rfl
    rw [activeSegment_of_newest hgreatest hfirst] at hactive
    rw [← Except.ok.inj hactive] at hlast
    exact (listedFor_getLast?_iff hmem hmax).mp hlast
  · intro h
    refine ⟨?_, ?_, ?_, ?_, ?_⟩
    · intro n hpos hle
      obtain ⟨k, rfl⟩ := Int.eq_ofNat_of_zero_le hpos
      have hlt : k < 10 ^ segmentDigits := by
        have hcast : (k : ℤ) < 10 ^ segmentDigits := by omega
        exact_mod_cast hcast
      exact ⟨_, segmentName_of_lt hlt, segmentOrdinal_eq_some_iff.mpr ⟨hlt, rfl⟩⟩
    · intro m n name name' hname hname'
      obtain ⟨k, hk, rfl, rfl⟩ := exists_nat_of_segmentName hname
      obtain ⟨k', hk', rfl, rfl⟩ := exists_nat_of_segmentName hname'
      rw [(strictMonoOn_segmentFile stem).lt_iff_lt hk hk', Nat.cast_lt]
    · rintro hne base rfl
      obtain ⟨newest, hmem, hmax, hfirst⟩ := exists_newest hne
      exact ⟨_, activeSegment_of_newest hmem hfirst,
        (listedFor_getLast?_iff hmem hmax).mpr (h newest hmem hmax)⟩
    · intro name hname n hn
      obtain ⟨hlt, rfl⟩ := segmentOrdinal_eq_some_iff.mp hn
      exact lt_nextOrdinal (mem_ordinals.mpr ⟨hlt, hname⟩)
    · intro name hname
      obtain ⟨hlt, rfl⟩ := segmentName_eq_ok hname
      refine ⟨fun hmem => ?_, fun other hother hof => ?_⟩
      · exact lt_irrefl _ (lt_nextOrdinal (mem_ordinals.mpr ⟨hlt, hmem⟩))
      · obtain ⟨n, hn⟩ := Option.isSome_iff_exists.mp hof
        obtain ⟨hnlt, rfl⟩ := segmentOrdinal_eq_some_iff.mp hn
        exact strictMonoOn_segmentFile stem hnlt hlt (lt_nextOrdinal (mem_ordinals.mpr ⟨hnlt, hother⟩))
  · rintro hne hordinals base rfl
    obtain ⟨newest, hmem, hmax, hfirst⟩ := exists_newest hordinals
    exact ⟨_, activeSegment_of_newest hmem hfirst, listedBlock_getLast? hne hmem hmax⟩

/-- A directory a writer of `.jsonl` has rotated. -/
def unnamedDir : Directory := (∅ : Directory).insert (str ".00000.jsonl") []

/-- A directory where `a.00000.jsonl` is a segment of `a` and the first file of `a.00000`. -/
def nestedDir : Directory :=
  (((∅ : Directory).insert (str "a.00000.00000.jsonl") []).insert (str "a.00001.jsonl") []).insert
    (str "a.00000.jsonl") []

theorem segmentNaming_unnamed :
    (activeSegment unnamedDir (str ".jsonl")).toOption = some (str ".00000.jsonl") ∧
      discoverSegments unnamedDir = [] ∧ ¬ SegmentNaming unnamedDir [] ∧
      (activeSegment nestedDir (str "a.jsonl")).toOption = some (str "a.00001.jsonl") ∧
      (listedFor nestedDir (str "a")).getLast? = some (str "a.00000.jsonl") ∧
      ¬ SegmentNaming nestedDir (str "a") := by
  have hunnamed : discoverSegments unnamedDir = [] := by decide +kernel
  have hnested : (listedFor nestedDir (str "a")).getLast? = some (str "a.00000.jsonl") := by
    decide +kernel
  have hactive : activeSegment nestedDir (str "a.jsonl") = .ok (str "a.00001.jsonl") := by
    decide +kernel
  refine ⟨by decide +kernel, hunnamed, ?_, by rw [hactive]; rfl, hnested, ?_⟩
  · intro h
    obtain ⟨name, -, hlast⟩ := h.active_last (by decide +kernel) (str ".jsonl") (by decide +kernel)
    rw [listedFor, hunnamed] at hlast
    cases hlast
  · intro h
    obtain ⟨name, hname, hlast⟩ :=
      h.active_last (by decide +kernel) (str "a.jsonl") (by decide +kernel)
    rw [hactive] at hname
    rw [hnested, ← Except.ok.inj hname] at hlast
    exact absurd hlast (by decide +kernel)

end Waxseal
