import Waxseal.Sources.SegmentReports

/-!
# One trail

Writers that all open the same base.  Every file of the directory is then the base or a
successor with a higher ordinal, and a successor opens with its binding from the moment it
has a byte (`OneTrail`).  The base is listed first (`eq_zero_of_base_listed`), so it is the
only segment that may open with anything else.

The writes of a step may stop at any byte; only a rotation that creates its file and then
writes nothing at all is excluded (`RotationAction.OfTrail`).
-/

namespace Waxseal

open Json

/-! ## The base is listed first -/

instance : Std.Total SegmentLe where
  total p q := by
    rcases lt_trichotomy p.1 q.1 with h | h | h
    · exact .inl (.inl h)
    · rcases le_total p.2 q.2 with h' | h'
      · exact .inl (.inr ⟨h, h'⟩)
      · exact .inr (.inr ⟨h.symm, h'⟩)
    · exact .inr (.inl h)

instance : IsTrans (ℕ × PyStr) SegmentLe where
  trans p q r hpq hqr := by
    rcases hpq with h | ⟨h, hle⟩
    · rcases hqr with h' | ⟨h', -⟩
      · exact .inl (h.trans h')
      · exact .inl (h' ▸ h)
    · rcases hqr with h' | ⟨h', hle'⟩
      · exact .inl (h ▸ h')
      · exact .inr ⟨h.trans h', hle.trans hle'⟩

theorem pairwise_numberedSegments (dir : Directory) (stem : PyStr) :
    (numberedSegments dir stem).Pairwise SegmentLe := List.pairwise_insertionSort _ _

theorem nodup_numberedSegments (dir : Directory) (stem : PyStr) :
    (numberedSegments dir stem).Nodup := by
  refine (List.perm_insertionSort SegmentLe _).nodup_iff.mpr ?_
  refine dir.keys_nodup.filterMap fun name name' p hp hp' => ?_
  have hsnd : ∀ {n : PyStr}, p ∈ (if stemOf n = some stem then
      (segmentOrdinal n stem).map fun k => (k, n) else none) → p.2 = n := by
    intro n hn
    split_ifs at hn
    · obtain ⟨k, -, rfl⟩ := Option.map_eq_some_iff.mp hn
      rfl
    · cases hn
  rw [← hsnd hp, ← hsnd hp']

theorem segmentFile_ne_unnumbered (stem : PyStr) (ordinal : ℕ) :
    segmentFile stem ordinal ≠ stem ++ segmentSuffix := by
  intro h
  have hlen := congrArg List.length h
  rw [segmentFile_eq] at hlen
  simp only [List.length_append] at hlen
  have hdot : (str ".").length = 1 := rfl
  omega

/-- The name of a successor of the base. -/
def IsSuccessor (base name : PyStr) : Prop :=
  ∃ ordinal, ordinal < 10 ^ segmentDigits ∧ name = segmentFile (baseStem base) ordinal ∧
    ∀ j, base = segmentFile (baseStem base) j → j < ordinal

theorem IsSuccessor.ne_base {base name : PyStr} (h : IsSuccessor base name) : name ≠ base := by
  rintro rfl
  obtain ⟨ordinal, -, hname, hlt⟩ := h
  exact lt_irrefl _ (hlt ordinal hname)

section Listing

variable {base : PyStr} {dir : Directory}

/-- A trail has one stem. -/
theorem numberedStems_of_trail (hbase : IsTrailName base)
    (hnames : ∀ name ∈ dir, name = base ∨ IsSuccessor base name) :
    numberedStems dir = [] ∨ numberedStems dir = [baseStem base] := by
  have hall : ∀ stem ∈ numberedStems dir, stem = baseStem base := by
    intro stem hstem
    obtain ⟨name, hname, hof⟩ := mem_numberedStems.mp hstem
    rcases hnames name hname with rfl | ⟨ordinal, hlt, rfl, -⟩
    · rw [baseStem, hof, Option.getD_some]
    · rw [stemOf_segmentFile (baseStem_ne_nil hbase) hlt] at hof
      exact (Option.some.inj hof).symm
  have hnodup : (numberedStems dir).Nodup :=
    (List.perm_insertionSort _ _).nodup_iff.mpr (List.nodup_dedup _)
  cases hstems : numberedStems dir with
  | nil => exact .inl rfl
  | cons stem stems =>
      rw [hstems] at hall hnodup
      obtain rfl := hall stem List.mem_cons_self
      refine .inr (congrArg _ (List.eq_nil_iff_forall_not_mem.mpr fun stem' hstem' => ?_))
      rw [hall stem' (List.mem_cons_of_mem _ hstem')] at hstem'
      exact (List.nodup_cons.mp hnodup).1 hstem'

/-- **The base is the first segment of its trail.** -/
theorem eq_zero_of_base_listed (hbase : IsTrailName base)
    (hnames : ∀ name ∈ dir, name = base ∨ IsSuccessor base name) {i : ℕ}
    (h : (discoverSegments dir)[i]? = some base) : i = 0 := by
  have hmem : base ∈ dir := (mem_discoverSegments.mp (List.mem_of_getElem? h)).1
  unfold discoverSegments at h
  rcases numberedStems_of_trail hbase hnames with hnil | hone
  · rw [hnil] at h
    cases h
  rw [hone, List.flatMap_singleton] at h
  by_contra hi
  obtain ⟨k, rfl⟩ := Nat.exists_eq_succ_of_ne_zero hi
  have hnumbered : ∀ {n : ℕ} {name : PyStr},
      ((numberedSegments dir (baseStem base)).map Prod.snd)[n]? = some name →
        ∃ p, (numberedSegments dir (baseStem base))[n]? = some p ∧ p.2 = name ∧
          name ∈ dir ∧ name = segmentFile (baseStem base) p.1 := by
    intro n name hn
    rw [List.getElem?_map] at hn
    obtain ⟨p, hp, rfl⟩ := Option.map_eq_some_iff.mp hn
    obtain ⟨hpmem, -, -, hpname⟩ := mem_numberedSegments.mp (List.mem_of_getElem? hp)
    exact ⟨p, hp, rfl, hpmem, hpname⟩
  split_ifs at h with hunnumbered
  · -- the unnumbered file is there: it is the base
    have heq : base = baseStem base ++ segmentSuffix := by
      rcases hnames _ hunnumbered with heq | ⟨ordinal, -, heq, -⟩
      · exact heq.symm
      · exact absurd heq.symm (segmentFile_ne_unnumbered _ _)
    rw [List.singleton_append, List.getElem?_cons_succ] at h
    obtain ⟨p, -, -, -, hname⟩ := hnumbered h
    exact segmentFile_ne_unnumbered _ _ (hname.symm.trans heq)
  · rw [List.nil_append] at h
    obtain ⟨p, hp, hpbase, -, hname⟩ := hnumbered h
    have hlt : k + 1 < (numberedSegments dir (baseStem base)).length :=
      (List.getElem?_eq_some_iff.mp hp).1
    have hpget := (List.getElem?_eq_some_iff.mp hp).2
    have hle := List.pairwise_iff_getElem.mp (pairwise_numberedSegments dir (baseStem base)) 0
      (k + 1) (by omega) hlt (Nat.succ_pos k)
    obtain ⟨hfirstMem, -, -, hfirst⟩ := mem_numberedSegments.mp
      (List.getElem_mem (show 0 < (numberedSegments dir (baseStem base)).length by omega))
    rcases hnames _ hfirstMem with heq | ⟨ordinal, -, heq, hafter⟩
    · have hsame : (numberedSegments dir (baseStem base))[0] = p := by
        refine Prod.ext ?_ (heq.trans hpbase.symm)
        exact segmentFile_inj (hfirst.symm.trans (heq.trans hname))
      have hindex := (nodup_numberedSegments dir (baseStem base)).getElem_inj_iff.mp
        (hsame.trans hpget.symm)
      omega
    · have hordinal := segmentFile_inj (heq.symm.trans hfirst)
      have hlater := hafter p.1 hname
      rw [hpget] at hle
      rcases hle with hlt' | ⟨heq', -⟩ <;> omega

end Listing

/-! ## The trail grows -/

variable [Interpreter] [Hashlib]

/-- The directory holds one trail: the base, and successors that open with their binding. -/
structure OneTrail (base : PyStr) (dir : Directory) : Prop where
  names : ∀ name ∈ dir, name = base ∨ IsSuccessor base name
  opens : ∀ name ∈ dir, name ≠ base → Stuck (fileOf dir name) ∨ OpensWithBinding (fileOf dir name)

/-- The writers of one trail. -/
structure SegmentedDir.OneTrail (base : PyStr) (w : SegmentedDir) : Prop where
  dir : Waxseal.OneTrail base w.dir
  rotating : ∀ r ∈ w.rotating, IsSuccessor base r.successor
  handles : ∀ h ∈ w.handles, h.name = base ∨ h.name ∈ w.dir

/-- A step of a writer of this trail; a rotation that creates its file writes a byte. -/
def RotationAction.OfTrail (base : PyStr) : RotationAction → Prop
  | .open base' _ _ => base'.val = base
  | .lock base' _ _ => base'.val = base
  | .bind call => ∀ n e, call.io.write = some (n, e) → n ≠ 0
  | .append _ _ | .crash => True

/-- **What is left of a successor opens with its binding**, whatever is appended to it. -/
theorem Extends.opens {config : LogConfig} {call : Call} {file after : Bytes} {es : List Entry}
    {d : Draft} {e : Entry} (h : Extends config call file after es d e)
    (hfile : Stuck file ∨ OpensWithBinding file) : Stuck after ∨ OpensWithBinding after := by
  rcases hfile with hstuck | ⟨es', first, hholds, hgenuine, hfirst, htype⟩
  · exact absurd hstuck (h.holds.not_stuck h.genuine.storable)
  · obtain rfl := hholds.unique h.holds hgenuine.storable h.genuine.storable
    rcases h.result with rfl | hafter | hstuck
    · exact .inr ⟨es', first, hholds, hgenuine, hfirst, htype⟩
    · refine .inr ⟨es' ++ [e], first, hafter, h.genuine_append, ?_, htype⟩
      rw [List.head?_append, hfirst, Option.some_or]
    · exact .inl hstuck

/-- A binding that is the first to be written opens the file. -/
theorem Extends.opens_bind {config : LogConfig} {call : Call} {after : Bytes} {es : List Entry}
    {binding : HandoffBinding} {d : Draft} {e : Entry}
    (h : Extends config (bindingCall binding call) [] after es d e)
    (hwrite : ∀ n err, call.io.write = some (n, err) → n ≠ 0) :
    Stuck after ∨ OpensWithBinding after := by
  have hes := h.holds.eq_nil
  have htype := (payloadType_of_built h.drafted h.built).1
  rcases h.result with heq | hafter | hstuck
  · have hline := h.written
    rw [heq, List.nil_append] at hline
    have hne : storedBytes e ++ [LF] ≠ [] := by simp
    unfold AppendIo.written at hline
    split at hline
    · exact absurd hline.symm hne
    · next n err hio =>
        have htake := List.take_eq_nil_iff.mp hline.symm
        exact absurd (htake.resolve_right hne) (hwrite n err hio)
  · refine .inr ⟨es ++ [e], e, hafter, h.genuine_append, ?_, htype⟩
    rw [hes]
    rfl
  · exact .inl hstuck

theorem OneTrail.insert {base : PyStr} {dir : Directory} (h : OneTrail base dir) {name : PyStr}
    {after : Bytes} (hname : name = base ∨ IsSuccessor base name)
    (hopens : name ≠ base → Stuck after ∨ OpensWithBinding after) :
    OneTrail base (dir.insert name after) := by
  constructor
  · intro name' hmem
    rcases (AList.mem_insert dir).mp hmem with rfl | hmem
    · exact hname
    · exact h.names name' hmem
  · intro name' hmem hne
    by_cases heq : name' = name
    · subst heq
      rw [fileOf_insert]
      exact hopens hne
    · rw [fileOf_insert_ne after heq]
      exact h.opens name' (((AList.mem_insert dir).mp hmem).resolve_left heq) hne

namespace SegmentedDir

variable {slug : PyStr} {base : FileName} {w : SegmentedDir}

theorem oneTrail_empty (base : PyStr) : empty.OneTrail base where
  dir := ⟨fun _ h => absurd h (AList.notMem_empty _), fun _ h => absurd h (AList.notMem_empty _)⟩
  rotating := nofun
  handles := nofun

omit [Interpreter] [Hashlib] in
/-- The active segment of the trail is there, or it is the base. -/
theorem active_mem {dir : Directory} {active : PyStr}
    (h : activeSegment dir base.val = .ok active) : active = base.val ∨ active ∈ dir := by
  rcases activeIn_cases h with ⟨ordinal, hordinal, -, rfl, -⟩ | ⟨-, -, ⟨rfl, hmem⟩ | rfl⟩
  · exact .inr (mem_ordinals.mp hordinal).2
  · exact .inr hmem
  · exact .inl rfl

omit [Interpreter] [Hashlib] in
theorem ordinal_lt_of_base (hbase : IsTrailName base.val) (j : ℕ)
    (hj : base.val = segmentFile (baseStem base.val) j) : j < 10 ^ segmentDigits := by
  rcases base_cases hbase.1 with hunnumbered | ⟨ordinal, hlt, hnumbered⟩
  · exact absurd (hj.symm.trans hunnumbered) (segmentFile_ne_unnumbered _ _)
  · exact segmentFile_inj (hj.symm.trans hnumbered) ▸ hlt

/-- The next ordinal is above all of the trail. -/
theorem isSuccessor_next {dir : Directory} (hdir : Waxseal.OneTrail base.val dir) {active : PyStr}
    (hactive : active ∈ dir) (hnext : nextOrdinal dir (baseStem base.val) < 10 ^ segmentDigits)
    (hlt : ∀ j, base.val = segmentFile (baseStem base.val) j → j < 10 ^ segmentDigits) :
    IsSuccessor base.val
      (segmentFile (baseStem base.val) (nextOrdinal dir (baseStem base.val))) := by
  refine ⟨_, hnext, rfl, fun j hj => ?_⟩
  rcases hdir.names active hactive with rfl | ⟨ordinal, hordinal, rfl, hafter⟩
  · exact lt_nextOrdinal (mem_ordinals.mpr ⟨hlt j hj, hj ▸ hactive⟩)
  · exact (hafter j hj).trans (lt_nextOrdinal (mem_ordinals.mpr ⟨hordinal, hactive⟩))

theorem OneTrail.handOut (h : w.OneTrail base.val) {name : PyStr} (config : LogConfig)
    (hname : name = base.val ∨ name ∈ w.dir) : (w.handOut name config).OneTrail base.val where
  dir := h.dir
  rotating := h.rotating
  handles := by
    intro held hheld
    rcases List.mem_append.mp hheld with hheld | hheld
    · exact h.handles held hheld
    · rw [List.mem_singleton.mp hheld]
      exact hname

/-- **Every step keeps the trail one trail.** -/
theorem OneTrail.step (hbase : IsTrailName base.val) (h : w.OneTrail base.val) (hsound : w.Sound slug)
    {a : RotationAction} (ha : a.OfTrail base.val) : (w.step slug a).OneTrail base.val := by
  cases a with
  | «open» base' max config =>
      obtain rfl : base' = base := Subtype.ext ha
      unfold SegmentedDir.step
      dsimp only
      split
      · next name hopen =>
          obtain ⟨active, hactive, hname⟩ := bind_eq_ok_iff.mp hopen
          have hsome := Except.ok.inj hname
          split_ifs at hsome
          obtain rfl := Option.some.inj hsome
          exact h.handOut config (active_mem hactive)
      · exact h
  | lock base' max config =>
      obtain rfl : base' = base := Subtype.ext ha
      unfold SegmentedDir.step
      dsimp only
      split
      · exact h
      · split
        · exact h
        · next name hsettle => exact h.handOut config (active_mem (settle_onto hsettle))
        · next successor binding hsettle =>
            obtain ⟨active, -, hnext, rfl, -, hne, -⟩ := settle_sealing hsettle
            have hmem : active ∈ w.dir := by
              by_contra hnot
              exact hne (fileOf_of_notMem hnot)
            refine ⟨h.dir, fun r hr => ?_, h.handles⟩
            obtain rfl := Option.some.inj hr
            exact isSuccessor_next h.dir hmem hnext (ordinal_lt_of_base hbase)
  | bind call =>
      unfold SegmentedDir.step
      dsimp only
      split
      · exact h
      · next r hr =>
          have hsucc := h.rotating r hr
          rcases appendTo_cases (hsound.dir.files r.successor) r.config (bindingCall r.binding call)
            (.open (fileOf w.dir r.successor)) with ⟨hsame, err, herr⟩ | ⟨after, es, d, e, hext, hdir⟩
          · rw [herr, hsame]
            exact ⟨h.dir, nofun, h.handles⟩
          · have hafter : Stuck after ∨ OpensWithBinding after := by
              by_cases hmem : r.successor ∈ w.dir
              · exact hext.opens (h.dir.opens _ hmem hsucc.ne_base)
              · rw [fileOf_of_notMem hmem] at hext
                exact hext.opens_bind ha
            have hdir' := h.dir.insert (.inr hsucc) fun _ => hafter
            have hold : ∀ held ∈ w.handles, held.name = base.val ∨
                held.name ∈ w.dir.insert r.successor after := fun held hheld =>
              (h.handles held hheld).imp_right fun hmem => (AList.mem_insert w.dir).mpr (.inr hmem)
            rw [hdir]
            split
            · refine ⟨hdir', nofun, fun held hheld => ?_⟩
              rcases List.mem_append.mp hheld with hheld | hheld
              · exact hold held hheld
              · rw [List.mem_singleton.mp hheld]
                exact .inr ((AList.mem_insert w.dir).mpr (.inl rfl))
            · exact ⟨hdir', nofun, hold⟩
  | crash => exact ⟨h.dir, nofun, h.handles⟩
  | append handle call =>
      unfold SegmentedDir.step
      dsimp only
      split
      · exact h
      · next held hheld =>
          have hname := h.handles held (List.mem_of_getElem? hheld)
          have hset : ∀ {dir : Directory}, (∀ name, name ∈ w.dir → name ∈ dir) →
              ∀ held' ∈ w.handles.set handle { held with log := (appendTo w.dir held.name held.config
                call held.log).2.2 }, held'.name = base.val ∨ held'.name ∈ dir := by
            intro dir hsub held' hheld'
            rcases List.mem_or_eq_of_mem_set hheld' with hold | rfl
            · exact (h.handles held' hold).imp_right (hsub _)
            · exact hname.imp_right (hsub _)
          rcases appendTo_cases (hsound.dir.files held.name) held.config call held.log with
            ⟨hsame, -⟩ | ⟨after, es, d, e, hext, hdir⟩
          · rw [hsame]
            exact ⟨h.dir, h.rotating, hset fun _ hmem => hmem⟩
          · rw [hdir]
            refine ⟨h.dir.insert ?_ ?_, h.rotating,
              hset fun _ hmem => (AList.mem_insert w.dir).mpr (.inr hmem)⟩
            · exact hname.elim .inl (h.dir.names _)
            · intro hne
              exact hext.opens (h.dir.opens _ (hname.resolve_left hne) hne)

/-- In a trail only the base may open with anything but its binding. -/
theorem OneTrail.listed (hbase : IsTrailName base.val) (h : Waxseal.OneTrail base.val w.dir) {i : ℕ}
    {name : PyStr} (hname : (discoverSegments w.dir)[i]? = some name) (hpos : 0 < i) :
    Stuck (fileOf w.dir name) ∨ OpensWithBinding (fileOf w.dir name) := by
  refine h.opens name (mem_discoverSegments.mp (List.mem_of_getElem? hname)).1 ?_
  rintro rfl
  exact hpos.ne' (eq_zero_of_base_listed hbase h.names hname)

end SegmentedDir

end Waxseal
