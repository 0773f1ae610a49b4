import Waxseal.Server.ChainStore
import Waxseal.Sources.RotationSound

/-!
# What the server keeps

The invariant of the requests of `Waxseal.Server.ChainStore`.  The segments of a chain are
numbered from `trail.jsonl` on (`segmentAt`).  Every segment that is there holds linked rows
(`Rows`), every one but the first opens with the binding of the last row of the one before
(`BoundAt`), and the holder of the lock still has the newest segment before it (`IsActive`).
An append adds a row to the newest segment and to no other, so whatever was sealed or won
stays where it is.
-/

namespace Waxseal

open Json

/-! ## The segments of a chain -/

/-- The segments of a chain, oldest first. -/
def segmentAt : ℕ → PyStr
  | 0 => trailName
  | n + 1 => segmentFile trailStem n

theorem trailStem_append_suffix : trailStem ++ segmentSuffix = trailName := by decide

theorem baseStem_trailName : baseStem trailName = trailStem := by decide +kernel

theorem trailName_ne_segmentFile (n : ℕ) : trailName ≠ segmentFile trailStem n := by
  intro h
  have hlen := congrArg List.length h
  rw [← trailStem_append_suffix, segmentFile_eq] at hlen
  simp only [List.length_append] at hlen
  have hdot : (str ".").length = 1 := rfl
  omega

theorem segmentAt_inj {m n : ℕ} (h : segmentAt m = segmentAt n) : m = n := by
  cases m with
  | zero =>
      cases n with
      | zero => rfl
      | succ n => exact absurd h (trailName_ne_segmentFile n)
  | succ m =>
      cases n with
      | zero => exact absurd h.symm (trailName_ne_segmentFile m)
      | succ n => exact congrArg _ (segmentFile_inj h)

theorem isTrailSegment_segmentAt {k : ℕ} (h : k ≤ 10 ^ segmentDigits) :
    isTrailSegment (segmentAt k) = true := by
  cases k with
  | zero => simp [isTrailSegment, segmentAt]
  | succ n =>
      have hordinal : segmentOrdinal (segmentAt (n + 1)) trailStem = some n :=
        segmentOrdinal_eq_some_iff.mpr ⟨h, rfl⟩
      simp [isTrailSegment, hordinal]

/-- The newest segment: it is there, unless nothing is, and none is newer. -/
structure IsActive (dir : Directory) (k : ℕ) : Prop where
  numbered : k ≤ 10 ^ segmentDigits
  present : k ≠ 0 → segmentAt k ∈ dir
  newest : ∀ n < 10 ^ segmentDigits, segmentAt (n + 1) ∈ dir → n < k

theorem isActive_of_activeSegment {dir : Directory} {name : PyStr}
    (h : activeSegment dir trailName = .ok name) :
    IsActive dir (nextOrdinal dir trailStem) ∧ name = segmentAt (nextOrdinal dir trailStem) := by
  rw [activeSegment, baseStem_trailName] at h
  have newest : ∀ n < 10 ^ segmentDigits, segmentAt (n + 1) ∈ dir →
      n < nextOrdinal dir trailStem := fun n hn hmem => lt_nextOrdinal (mem_ordinals.mpr ⟨hn, hmem⟩)
  rcases activeIn_cases h with ⟨ordinal, hmem, -, rfl, hnext⟩ | ⟨-, hnext, hname⟩
  · obtain ⟨hlt, hthere⟩ := mem_ordinals.mp hmem
    rw [hnext] at newest ⊢
    exact ⟨⟨hlt, fun _ => hthere, newest⟩, rfl⟩
  · rw [hnext] at newest ⊢
    refine ⟨⟨Nat.zero_le _, fun hne => absurd rfl hne, newest⟩, ?_⟩
    rcases hname with ⟨rfl, -⟩ | rfl
    · exact trailStem_append_suffix
    · rfl

theorem IsActive.insert {dir : Directory} {k : ℕ} (h : IsActive dir k) {name : PyStr}
    (file : Bytes) (hname : isTrailSegment name = false) : IsActive (dir.insert name file) k where
  numbered := h.numbered
  present := fun hk => (AList.mem_insert dir).mpr (.inr (h.present hk))
  newest := by
    intro n hn hmem
    rcases (AList.mem_insert dir).mp hmem with heq | hmem
    · rw [← heq, isTrailSegment_segmentAt hn] at hname
      cases hname
    · exact h.newest n hn hmem

variable [Interpreter] [Hashlib]

/-! ## Rows -/

/-- The rows of a segment that is there. -/
structure Rows (dir : Directory) (name : PyStr) (rows : List Entry) : Prop where
  present : name ∈ dir
  file : fileOf dir name = trailBytes rows
  wellFormed : WellFormed rows
  ne_nil : rows ≠ []

section Rows

omit [Hashlib]

variable {dir : Directory} {name name' : PyStr} {rows rows' : List Entry}

theorem Rows.entries (h : Rows dir name rows) : entries (fileOf dir name) = .ok rows := by
  rw [h.file, entries_trailBytes h.wellFormed.storable]

theorem Rows.unique (h : Rows dir name rows) (h' : Rows dir name rows') : rows = rows' :=
  Except.ok.inj (h.entries.symm.trans h'.entries)

theorem Rows.insert_ne (h : Rows dir name rows) {file : Bytes} (hne : name ≠ name') :
    Rows (dir.insert name' file) name rows where
  present := (AList.mem_insert dir).mpr (.inr h.present)
  file := by rw [fileOf_insert_ne file hne, h.file]
  wellFormed := h.wellFormed
  ne_nil := h.ne_nil

theorem rows_insert (dir : Directory) (name : PyStr) (hrows : WellFormed rows) (hne : rows ≠ []) :
    Rows (dir.insert name (trailBytes rows)) name rows where
  present := (AList.mem_insert dir).mpr (.inl rfl)
  file := fileOf_insert dir name _
  wellFormed := hrows
  ne_nil := hne

end Rows

/-! ## The trail of a chain -/

/-- A segment opens with the binding of the last row of the one before. -/
structure BoundAt (chainId : PyStr) (dir : Directory) (n : ℕ) (binding : HandoffBinding)
    (older newer : List Entry) : Prop where
  sealedRows : Rows dir (segmentAt n) older
  sealedTail : nextLink older = ((binding.seq : ℤ) + 1, binding.headHash)
  rows : Rows dir (segmentAt (n + 1)) newer
  first : ∃ e, newer.head? = some e ∧ e.header.payloadType = rotationPayloadType ∧
    e.payload = some (canonicalJson binding.toPayload)
  chainId : binding.chainId = segmentChainId chainId (segmentIdentity (segmentAt n))

/-- The segments of a chain are in order. -/
structure TrailSound (chainId : PyStr) (dir : Directory) : Prop where
  rows : ∀ k ≤ 10 ^ segmentDigits, segmentAt k ∈ dir → ∃ rows, Rows dir (segmentAt k) rows
  bound : ∀ n < 10 ^ segmentDigits, segmentAt (n + 1) ∈ dir →
    ∃ binding older newer, BoundAt chainId dir n binding older newer

/-- Every segment has the rows it had, and perhaps more. -/
def Grows (dir dir' : Directory) : Prop :=
  ∀ k ≤ 10 ^ segmentDigits, ∀ rows, Rows dir (segmentAt k) rows →
    ∃ more, Rows dir' (segmentAt k) (rows ++ more)

section Trail

omit [Hashlib]

variable {chainId : PyStr} {dir : Directory} {k : ℕ} {rows : List Entry} {row : Entry}

/-- A row at the end of the newest segment. -/
theorem TrailSound.append (h : TrailSound chainId dir) (hactive : IsActive dir k)
    (hbefore : Rows dir (segmentAt k) rows ∨ segmentAt k ∉ dir ∧ rows = [])
    (hrows : WellFormed (rows ++ [row])) :
    TrailSound chainId (dir.insert (segmentAt k) (trailBytes (rows ++ [row]))) ∧
      Grows dir (dir.insert (segmentAt k) (trailBytes (rows ++ [row]))) := by
  have hnew := rows_insert dir (segmentAt k) hrows (List.append_ne_nil_of_right_ne_nil _ (by simp))
  have hgrows : Grows dir (dir.insert (segmentAt k) (trailBytes (rows ++ [row]))) := by
    intro k' _ rows' hrows'
    by_cases hk : k' = k
    · subst hk
      rcases hbefore with hbefore | ⟨habsent, -⟩
      · obtain rfl := hbefore.unique hrows'
        exact ⟨[row], hnew⟩
      · exact absurd hrows'.present habsent
    · refine ⟨[], ?_⟩
      rw [List.append_nil]
      exact hrows'.insert_ne fun heq => hk (segmentAt_inj heq)
  refine ⟨⟨fun k' hk' hmem => ?_, fun n hn hmem => ?_⟩, hgrows⟩
  · rcases (AList.mem_insert dir).mp hmem with heq | hmem
    · refine ⟨rows ++ [row], ?_⟩
      rw [heq]
      exact hnew
    · obtain ⟨rows', hrows'⟩ := h.rows k' hk' hmem
      obtain ⟨more, hmore⟩ := hgrows k' hk' rows' hrows'
      exact ⟨_, hmore⟩
  · have hthere : segmentAt (n + 1) ∈ dir := by
      rcases (AList.mem_insert dir).mp hmem with heq | hmem
      · exact heq ▸ hactive.present (segmentAt_inj heq ▸ Nat.succ_ne_zero n)
      · exact hmem
    obtain ⟨binding, sealed, rows', hbound⟩ := h.bound n hn hthere
    -- the newest segment is not the one that was sealed
    have hsealed : segmentAt n ≠ segmentAt k := fun heq =>
      (hactive.newest n hn hthere).ne (segmentAt_inj heq)
    obtain ⟨more, hmore⟩ := hgrows (n + 1) hn rows' hbound.rows
    obtain ⟨e, hfirst, htype, hpayload⟩ := hbound.first
    refine ⟨binding, sealed, rows' ++ more, hbound.sealedRows.insert_ne hsealed, hbound.sealedTail,
      hmore, ⟨e, ?_, htype, hpayload⟩, hbound.chainId⟩
    rw [List.head?_append, hfirst, Option.some_or]

/-- A segment after the newest one, that opens with the binding of its last row. -/
theorem TrailSound.rotate (h : TrailSound chainId dir) (hactive : IsActive dir k)
    (hk : k < 10 ^ segmentDigits) (hrows : Rows dir (segmentAt k) rows) {binding : HandoffBinding}
    (htail : nextLink rows = ((binding.seq : ℤ) + 1, binding.headHash))
    (hchain : binding.chainId = segmentChainId chainId (segmentIdentity (segmentAt k)))
    (hrow : WellFormed [row]) (htype : row.header.payloadType = rotationPayloadType)
    (hpayload : row.payload = some (canonicalJson binding.toPayload)) :
    TrailSound chainId (dir.insert (segmentAt (k + 1)) (trailBytes [row])) ∧
      Grows dir (dir.insert (segmentAt (k + 1)) (trailBytes [row])) := by
  have hnew := rows_insert dir (segmentAt (k + 1)) hrow (List.cons_ne_nil _ _)
  have habsent : segmentAt (k + 1) ∉ dir := fun hmem => lt_irrefl k (hactive.newest k hk hmem)
  have hold : ∀ {k' : ℕ} {rows' : List Entry}, Rows dir (segmentAt k') rows' →
      Rows (dir.insert (segmentAt (k + 1)) (trailBytes [row])) (segmentAt k') rows' :=
    fun hrows' => hrows'.insert_ne fun heq => habsent (heq ▸ hrows'.present)
  refine ⟨⟨fun k' hk' hmem => ?_, fun n hn hmem => ?_⟩, fun k' _ rows' hrows' => ⟨[], ?_⟩⟩
  · rcases (AList.mem_insert dir).mp hmem with heq | hmem
    · refine ⟨[row], ?_⟩
      rw [heq]
      exact hnew
    · obtain ⟨rows', hrows'⟩ := h.rows k' hk' hmem
      exact ⟨rows', hold hrows'⟩
  · rcases (AList.mem_insert dir).mp hmem with heq | hmem
    · obtain rfl : n = k := Nat.succ_injective (segmentAt_inj heq)
      exact ⟨binding, rows, [row], hold hrows, htail, hnew, ⟨row, rfl, htype, hpayload⟩, hchain⟩
    · obtain ⟨binding', sealed, rows', hbound⟩ := h.bound n hn hmem
      exact ⟨binding', sealed, rows', hold hbound.sealedRows, hbound.sealedTail, hold hbound.rows,
        hbound.first, hbound.chainId⟩
  · rw [List.append_nil]
    exact hold hrows'

/-- A file that is no segment. -/
theorem TrailSound.other (h : TrailSound chainId dir) {name : PyStr} (file : Bytes)
    (hname : isTrailSegment name = false) :
    TrailSound chainId (dir.insert name file) ∧ Grows dir (dir.insert name file) := by
  have hne : ∀ {k' : ℕ}, k' ≤ 10 ^ segmentDigits → segmentAt k' ≠ name := by
    rintro k' hk' rfl
    rw [isTrailSegment_segmentAt hk'] at hname
    cases hname
  have hthere : ∀ {k' : ℕ}, k' ≤ 10 ^ segmentDigits → segmentAt k' ∈ dir.insert name file →
      segmentAt k' ∈ dir := fun hk' hmem => ((AList.mem_insert dir).mp hmem).resolve_left (hne hk')
  refine ⟨⟨fun k' hk' hmem => ?_, fun n hn hmem => ?_⟩, fun k' hk' rows' hrows' => ⟨[], ?_⟩⟩
  · obtain ⟨rows', hrows'⟩ := h.rows k' hk' (hthere hk' hmem)
    exact ⟨rows', hrows'.insert_ne (hne hk')⟩
  · obtain ⟨binding, sealed, rows', hbound⟩ := h.bound n hn (hthere hn hmem)
    exact ⟨binding, sealed, rows', hbound.sealedRows.insert_ne (hne hn.le), hbound.sealedTail,
      hbound.rows.insert_ne (hne hn), hbound.first, hbound.chainId⟩
  · rw [List.append_nil]
    exact hrows'.insert_ne (hne hk')

end Trail

/-! ## The compare-and-set -/

section Store

omit [Hashlib]

/-- **What a request does to its segment**: nothing, or it adds the row it named the tail
for. -/
theorem storeIn_cases {dir : Directory} {name : PyStr} {rows : List Entry}
    (hfile : fileOf dir name = trailBytes rows) (hrows : WellFormed rows) (io : AppendIo)
    (entry : Envelope) :
    (∃ err, storeIn dir name io.completing entry.val = (dir, .error err)) ∨
      (WellFormed (rows ++ [entry.val.joined]) ∧
        (storeIn dir name io.completing entry.val).1
          = dir.insert name (trailBytes (rows ++ [entry.val.joined])) ∧
        ((storeIn dir name io.completing entry.val).2 = .ok entry.val ∨
          ∃ err, (storeIn dir name io.completing entry.val).2 = .error err)) := by
  unfold storeIn
  rcases hprepare : prepare defaultScan io.completing (casBuild entry.val)
    (Store.opened (fileOf dir name)) with ⟨result, s⟩
  have hs : s.file = trailBytes rows := by
    have := @file_prepare _ defaultScan io.completing (casBuild entry.val)
      (Store.opened (fileOf dir name))
    rw [hprepare] at this
    exact this.trans hfile
  cases result with
  | error err =>
      refine .inl ⟨err, ?_⟩
      simp only [JSONLBackend.append, hprepare]
      rfl
  | ok written =>
      obtain ⟨stored, bytes⟩ := written
      obtain ⟨tail, htail, hbuild, -, hbytes⟩ := prepare_ok hprepare
      have hread : tailLocked (trailBytes rows) = .ok tail := hfile ▸ htail
      rw [tailLocked_trailBytes hrows.storable] at hread
      obtain rfl := Except.ok.inj hread
      unfold casBuild at hbuild
      split_ifs at hbuild with hcas
      obtain rfl := Except.ok.inj hbuild
      rw [not_or, not_not, not_not] at hcas
      have hlink : entry.val.joined.backLink = nextLink rows :=
        Prod.ext hcas.1.symm hcas.2.symm
      have hstorable := storable_joined entry.property
      have hwellFormed : WellFormed (rows ++ [entry.val.joined]) :=
        wellFormed_append_singleton.mpr ⟨hrows, hlink, hstorable⟩
      have hline : bytes = storedBytes entry.val.joined ++ [LF] := by
        rw [← storedText_joined, encodeUtf8_storedText hstorable] at hbytes
        exact (Option.some.inj hbytes).symm
      have hafter : s.file ++ bytes = trailBytes (rows ++ [entry.val.joined]) := by
        rw [hs, hline, trailBytes_append, trailBytes_singleton]
      have hwrite : io.completing.write = none := rfl
      refine .inr ⟨hwellFormed, ?_, ?_⟩
      · cases hrelease : io.completing.release with
        | none =>
            simp only [JSONLBackend.append, hprepare, hwrite, hrelease, hafter]
            rfl
        | some err =>
            simp only [JSONLBackend.append, hprepare, hwrite, hrelease, hafter]
            rfl
      · cases hrelease : io.completing.release with
        | none =>
            simp only [JSONLBackend.append, hprepare, hwrite, hrelease]
            exact .inl trivial
        | some err =>
            simp only [JSONLBackend.append, hprepare, hwrite, hrelease]
            exact .inr ⟨err, rfl⟩

end Store

/-! ## A rotation -/

/-- What a rotation has settled: the segment before the successor is the newest one, and the
binding is that of its last row. -/
structure Settled (chainId : PyStr) (dir : Directory) (successor : PyStr)
    (binding : HandoffBinding) (k : ℕ) (rows : List Entry) : Prop where
  active : IsActive dir k
  numbered : k < 10 ^ segmentDigits
  successor : successor = segmentAt (k + 1)
  closing : Rows dir (segmentAt k) rows
  tail : nextLink rows = ((binding.seq : ℤ) + 1, binding.headHash)
  chainId : binding.chainId = segmentChainId chainId (segmentIdentity (segmentAt k))

omit [Hashlib] in
theorem settled_of_settle {chainId : PyStr} {dir : Directory} (h : TrailSound chainId dir) {max : ℤ}
    {successor : PyStr} {binding : HandoffBinding}
    (hsettle : settle chainId dir trailName max = .ok (.sealing successor binding)) :
    ∃ k rows, Settled chainId dir successor binding k rows := by
  obtain ⟨active, hactive, hlt, hsuccessor, hchain, hne, htail⟩ := settle_sealing hsettle
  obtain ⟨hisActive, rfl⟩ := isActive_of_activeSegment hactive
  rw [baseStem_trailName] at hlt hsuccessor
  have hmem : segmentAt (nextOrdinal dir trailStem) ∈ dir := by
    by_contra hnot
    exact hne (fileOf_of_notMem hnot)
  obtain ⟨rows, hrows⟩ := h.rows _ hisActive.numbered hmem
  rw [hrows.file, tailLocked_trailBytes hrows.wellFormed.storable] at htail
  exact ⟨_, rows, hisActive, hlt, hsuccessor, hrows, Except.ok.inj htail, hchain⟩

/-- **What a rotation writes**: nothing, or the binding as the first row of the successor. -/
theorem appendTo_binding {chainId : PyStr} {dir : Directory} {successor : PyStr}
    {binding : HandoffBinding} {k : ℕ} {rows : List Entry}
    (h : Settled chainId dir successor binding k rows) (call : Call)
    (hwrite : call.io.write = none) (log : AuditLog) :
    (appendTo dir successor serverConfig (bindingCall binding call) log).1 = dir ∨
      ∃ row, WellFormed [row] ∧ row.header.payloadType = rotationPayloadType ∧
        row.payload = some (canonicalJson binding.toPayload) ∧
        (appendTo dir successor serverConfig (bindingCall binding call) log).1
          = dir.insert (segmentAt (k + 1)) (trailBytes [row]) := by
  have habsent : successor ∉ dir := fun hmem =>
    lt_irrefl k (h.active.newest k h.numbered (h.successor ▸ hmem))
  generalize hlog : ({ log with store := { log.store with file := fileOf dir successor } } : AuditLog)
    = opened
  have hfile : opened.store.file = [] := by
    rw [← hlog]
    exact fileOf_of_notMem habsent
  have hdir : (appendTo dir successor serverConfig (bindingCall binding call) log).1 =
      if opened.opensTrail serverConfig (bindingCall binding call) then
        dir.insert successor (opened.append serverConfig (bindingCall binding call)).2.store.file
      else dir := by
    rw [appendTo, hlog]
  rw [hdir]
  rcases append_effect serverConfig (bindingCall binding call) opened with
    ⟨hclosed, -⟩ | ⟨d, tail, row, hopen, hdraft, htail, hbuild, hafter⟩
  · exact .inl (by rw [hclosed]; rfl)
  · rw [hfile] at htail hafter
    obtain rfl : genesisLink = tail := Except.ok.inj htail
    obtain ⟨htype, hpayload⟩ := payloadType_of_built hdraft hbuild
    obtain ⟨b, -, -, hstored, hseq, hprev⟩ := Draft.build_eq_ok hbuild
    rw [hstored, Option.getD_some] at hpayload
    have hbytes : canonicalJson binding.toPayload = d.payloadBytes := Except.ok.inj hpayload
    have hline : (bindingCall binding call).io.written (storedBytes row ++ [LF])
        = trailBytes [row] := by
      rw [AppendIo.written, show (bindingCall binding call).io.write = none from hwrite,
        trailBytes_singleton]
    have hrow : WellFormed [row] := wellFormed_append_singleton.mpr
      ⟨wellFormed_nil, Prod.ext hseq hprev, Draft.storable_of_build hbuild⟩
    refine .inr ⟨row, hrow, htype, by rw [hstored, hbytes], ?_⟩
    rw [hopen, hafter, hline, h.successor]
    rfl

/-! ## The requests -/

/-- What the holder of the lock relies on. -/
def Critical.Holds (chainId : PyStr) (dir : Directory) : Critical → Prop
  | .settling _ | .resolving _ => True
  | .binding _ successor b => ∃ k rows, Settled chainId dir successor b k rows
  | .comparing _ name => ∃ k, IsActive dir k ∧ name = segmentAt k

/-- The entry is a row of the segment, where it counts to be. -/
def StoredAt (dir : Directory) (name : PyStr) (e : Entry) : Prop :=
  ∃ k ≤ 10 ^ segmentDigits, name = segmentAt k ∧ ∃ rows, Rows dir name rows ∧
    ∃ (i : ℕ) (row : Entry), e.header.seq = i ∧ rows[i]? = some row ∧
      row.backLink = e.backLink ∧ row.entryHash = e.entryHash

/-- The invariant. -/
structure ChainDir.Sound (store : ChainStore) (w : ChainDir) : Prop where
  trail : TrailSound store.chainId w.dir
  holder : ∀ i critical, w.holder = some (i, critical) → critical.Holds store.chainId w.dir
  won : ∀ name e, PostState.won name e ∈ w.posts → StoredAt w.dir name e
  distinct : ∀ (i j : ℕ) name e e', i ≠ j → w.posts[i]? = some (PostState.won name e) →
    w.posts[j]? = some (PostState.won name e') → e.header.seq ≠ e'.header.seq

omit [Hashlib] in
theorem StoredAt.grows {dir dir' : Directory} {name : PyStr} {e : Entry}
    (h : StoredAt dir name e) (hgrows : Grows dir dir') : StoredAt dir' name e := by
  obtain ⟨k, hk, rfl, rows, hrows, i, row, hseq, hrow, hlink, hhash⟩ := h
  obtain ⟨more, hmore⟩ := hgrows k hk rows hrows
  refine ⟨k, hk, rfl, _, hmore, i, row, hseq, ?_, hlink, hhash⟩
  rw [List.getElem?_append_left (List.getElem?_eq_some_iff.mp hrow).1, hrow]

omit [Hashlib] in
theorem grows_refl (dir : Directory) : Grows dir dir :=
  fun _ _ rows hrows => ⟨[], by rwa [List.append_nil]⟩

omit [Hashlib] in
theorem Grows.trans {dir dir' dir'' : Directory} (h : Grows dir dir') (h' : Grows dir' dir'') :
    Grows dir dir'' := by
  intro k hk rows hrows
  obtain ⟨more, hmore⟩ := h k hk rows hrows
  obtain ⟨more', hmore'⟩ := h' k hk _ hmore
  exact ⟨more ++ more', by rwa [← List.append_assoc]⟩

/-- What a step leaves: the invariant, and all the rows. -/
structure ChainDir.Keeps (store : ChainStore) (w w' : ChainDir) : Prop where
  sound : w'.Sound store
  grows : Grows w.dir w'.dir

namespace ChainDir

variable {store : ChainStore} {w : ChainDir}

omit [Interpreter] [Hashlib] in
/-- A request that has not won yet moves on. -/
theorem won_of_mem_set {posts : List PostState} {i : ℕ} {post : PostState}
    (hpost : ∀ name e, post ≠ .won name e) {name : PyStr} {e : Entry}
    (h : .won name e ∈ posts.set i post) : .won name e ∈ posts :=
  (List.mem_or_eq_of_mem_set h).resolve_right fun heq => hpost name e heq.symm

omit [Interpreter] [Hashlib] in
theorem won_of_getElem?_set {posts : List PostState} {i j : ℕ} {post : PostState}
    (hpost : ∀ name e, post ≠ .won name e) {name : PyStr} {e : Entry}
    (h : (posts.set i post)[j]? = some (.won name e)) : posts[j]? = some (.won name e) := by
  rw [List.getElem?_set] at h
  split_ifs at h with hij hlt
  · exact absurd (Option.some.inj h) (hpost name e)
  · exact h

omit [Hashlib] in
/-- **A request that leaves the lock without winning** keeps the invariant, whatever rows it
added. -/
theorem Sound.leave (h : w.Sound store) {dir : Directory} (htrail : TrailSound store.chainId dir)
    (hgrows : Grows w.dir dir) (i : ℕ) {post : PostState} (hpost : ∀ name e, post ≠ .won name e) :
    Keeps store w (w.leave i dir post) where
  sound := {
    trail := htrail
    holder := nofun
    won := fun name e hwon => (h.won name e (won_of_mem_set hpost hwon)).grows hgrows
    distinct := fun j k name e e' hne hj hk => h.distinct j k name e e' hne
      (won_of_getElem?_set hpost hj) (won_of_getElem?_set hpost hk) }
  grows := hgrows

omit [Hashlib] in
/-- A request that moves on keeps the invariant. -/
theorem Sound.advance (h : w.Sound store) (i : ℕ) {post : PostState}
    (hpost : ∀ name e, post ≠ .won name e) : Keeps store w (w.advance i post) where
  sound := {
    trail := h.trail
    holder := h.holder
    won := fun name e hwon => h.won name e (won_of_mem_set hpost hwon)
    distinct := fun j k name e e' hne hj hk => h.distinct j k name e e' hne
      (won_of_getElem?_set hpost hj) (won_of_getElem?_set hpost hk) }
  grows := grows_refl w.dir

omit [Hashlib] in
/-- So does one that changes nothing. -/
theorem Sound.keeps (h : w.Sound store) : Keeps store w w := ⟨h, grows_refl w.dir⟩

omit [Hashlib] in
/-- The rows of the newest segment, or none where there is none yet. -/
theorem Sound.newest (h : w.Sound store) {k : ℕ} (hactive : IsActive w.dir k) :
    ∃ rows, (Rows w.dir (segmentAt k) rows ∨ segmentAt k ∉ w.dir ∧ rows = []) ∧
      fileOf w.dir (segmentAt k) = trailBytes rows ∧ WellFormed rows := by
  by_cases hmem : segmentAt k ∈ w.dir
  · obtain ⟨rows, hrows⟩ := h.trail.rows k hactive.numbered hmem
    exact ⟨rows, .inl hrows, hrows.file, hrows.wellFormed⟩
  · exact ⟨[], .inr ⟨hmem, rfl⟩, fileOf_of_notMem hmem, wellFormed_nil⟩

/-- **A request that compares and sets** keeps the invariant: what it wins is the row after
all the others. -/
theorem Sound.compare (h : w.Sound store) {k : ℕ} (hactive : IsActive w.dir k) (call : Call)
    (entry : Envelope) (i : ℕ) :
    Keeps store w (w.work store call i (.comparing entry (segmentAt k))) := by
  obtain ⟨rows, hbefore, hfile, hrows⟩ := h.newest hactive
  unfold ChainDir.work
  dsimp only
  rcases storeIn_cases hfile hrows call.io entry with ⟨err, hfailed⟩ | ⟨hafter, hdir, hresult⟩
  · rw [hfailed]
    exact h.leave h.trail (grows_refl w.dir) i nofun
  · obtain ⟨htrail, hgrows⟩ := h.trail.append hactive hbefore hafter
    rcases hstore : storeIn w.dir (segmentAt k) call.io.completing entry.val with ⟨dir, result⟩
    rw [hstore] at hdir hresult
    obtain rfl := hdir
    rcases hresult with rfl | ⟨err, rfl⟩
    · have hlink := (wellFormed_append_singleton.mp hafter).2.1
      have hseq : entry.val.header.seq = rows.length := by
        rw [← nextLink_fst hrows.linked, ← hlink]
        rfl
      have hnew : Rows (w.dir.insert (segmentAt k) (trailBytes (rows ++ [entry.val.joined])))
          (segmentAt k) (rows ++ [entry.val.joined]) :=
        rows_insert w.dir _ hafter (List.append_ne_nil_of_right_ne_nil _ (by simp))
      have hstored : StoredAt (w.dir.insert (segmentAt k) (trailBytes (rows ++ [entry.val.joined])))
          (segmentAt k) entry.val :=
        ⟨k, hactive.numbered, rfl, _, hnew, rows.length, entry.val.joined, hseq,
          List.getElem?_concat_length, rfl, rfl⟩
      -- whoever won before is a row of the segment as it was
      have hearlier : ∀ e, .won (segmentAt k) e ∈ w.posts → e.header.seq ≠ entry.val.header.seq := by
        intro e hwon heq
        obtain ⟨k', hk', hname, rows', hrows', n, row, hn, hrow, -⟩ := h.won _ e hwon
        obtain ⟨hlt, -⟩ := List.getElem?_eq_some_iff.mp hrow
        rcases hbefore with hbefore | ⟨habsent, -⟩
        · rw [hbefore.unique hrows'] at hseq
          omega
        · exact habsent hrows'.present
      refine ⟨⟨htrail, nofun, fun name e hwon => ?_, fun j l name e e' hne hj hl => ?_⟩, hgrows⟩
      · rcases List.mem_or_eq_of_mem_set hwon with hold | heq
        · exact (h.won name e hold).grows hgrows
        · obtain ⟨rfl, rfl⟩ := PostState.won.inj heq
          exact hstored
      · change (w.posts.set i (.won (segmentAt k) entry.val))[j]? = _ at hj
        change (w.posts.set i (.won (segmentAt k) entry.val))[l]? = _ at hl
        rw [List.getElem?_set] at hj hl
        split_ifs at hj hl with hij hlt hil hlt'
        · omega
        · obtain ⟨rfl, rfl⟩ := PostState.won.inj (Option.some.inj hj)
          exact (hearlier e' (List.mem_of_getElem? hl)).symm
        · obtain ⟨rfl, rfl⟩ := PostState.won.inj (Option.some.inj hl)
          exact hearlier e (List.mem_of_getElem? hj)
        · exact h.distinct j l name e e' hne hj hl
    · exact h.leave htrail hgrows i nofun

/-- **A rotation** keeps the invariant. -/
theorem Sound.bind (h : w.Sound store) {successor : PyStr} {binding : HandoffBinding} {k : ℕ}
    {rows : List Entry} (hsettled : Settled store.chainId w.dir successor binding k rows)
    (call : Call) (entry : Envelope) (i : ℕ) :
    Keeps store w (w.work store call i (.binding entry successor binding)) := by
  have key : ∀ log, TrailSound store.chainId (appendTo w.dir successor serverConfig
        (bindingCall binding { call with io := call.io.completing }) log).1 ∧
      Grows w.dir (appendTo w.dir successor serverConfig
        (bindingCall binding { call with io := call.io.completing }) log).1 := by
    intro log
    rcases appendTo_binding hsettled { call with io := call.io.completing } rfl log with
      hsame | ⟨row, hrow, htype, hpayload, hdir⟩
    · rw [hsame]
      exact ⟨h.trail, grows_refl w.dir⟩
    · rw [hdir]
      exact h.trail.rotate hsettled.active hsettled.numbered hsettled.closing hsettled.tail
        hsettled.chainId hrow htype hpayload
  obtain ⟨htrail, hgrows⟩ := key (.open (fileOf w.dir successor))
  unfold ChainDir.work
  dsimp only
  split
  · exact h.leave htrail hgrows i nofun
  · exact h.leave htrail hgrows i nofun
  · exact h.leave htrail hgrows i nofun

/-- The next step of the holder of the lock keeps the invariant. -/
theorem Sound.work (h : w.Sound store) (call : Call) {i : ℕ} {critical : Critical}
    (hholds : critical.Holds store.chainId w.dir) : Keeps store w (w.work store call i critical) := by
  cases critical with
  | settling entry =>
      unfold ChainDir.work
      dsimp only
      split
      · exact h.leave h.trail (grows_refl w.dir) i nofun
      · exact h.leave h.trail (grows_refl w.dir) i nofun
      · next successor binding hsettle =>
          refine ⟨⟨h.trail, fun j critical hj => ?_, h.won, h.distinct⟩, grows_refl w.dir⟩
          obtain ⟨rfl, rfl⟩ := Prod.mk.inj (Option.some.inj hj)
          exact settled_of_settle h.trail hsettle
  | binding entry successor binding =>
      obtain ⟨k, rows, hsettled⟩ := hholds
      exact h.bind hsettled call entry i
  | resolving entry =>
      unfold ChainDir.work
      dsimp only
      split
      · exact h.leave h.trail (grows_refl w.dir) i nofun
      · next name hname =>
          refine ⟨⟨h.trail, fun j critical hj => ?_, h.won, h.distinct⟩, grows_refl w.dir⟩
          obtain ⟨rfl, rfl⟩ := Prod.mk.inj (Option.some.inj hj)
          obtain ⟨hactive, rfl⟩ := isActive_of_activeSegment hname
          exact ⟨_, hactive, rfl⟩
  | comparing entry name =>
      obtain ⟨k, hactive, rfl⟩ := hholds
      exact h.compare hactive call entry i

omit [Hashlib] in
theorem received_ne_won (body : Bytes) (name : PyStr) (e : Entry) : received body ≠ .won name e := by
  unfold received
  split
  · exact nofun
  · split
    · exact nofun
    · exact nofun

omit [Hashlib] in
/-- What the holder relies on does not depend on the other files. -/
theorem holds_other {chainId : PyStr} {dir : Directory} {critical : Critical}
    (h : critical.Holds chainId dir) {name : PyStr} (file : Bytes)
    (hname : isTrailSegment name = false) : critical.Holds chainId (dir.insert name file) := by
  cases critical with
  | settling entry => trivial
  | resolving entry => trivial
  | binding entry successor binding =>
      obtain ⟨k, rows, hsettled⟩ := h
      have hne : segmentAt k ≠ name := by
        rintro rfl
        rw [isTrailSegment_segmentAt hsettled.numbered.le] at hname
        cases hname
      exact ⟨k, rows, hsettled.active.insert file hname, hsettled.numbered, hsettled.successor,
        hsettled.closing.insert_ne hne, hsettled.tail, hsettled.chainId⟩
  | comparing entry segment =>
      obtain ⟨k, hactive, hsegment⟩ := h
      exact ⟨k, hactive.insert file hname, hsegment⟩

/-- **Every step keeps the invariant**, and every row. -/
theorem Sound.step (h : w.Sound store) (s : ServerStep) : Keeps store w (w.step store s) := by
  cases s with
  | post body =>
      refine ⟨⟨h.trail, h.holder, fun name e hwon => ?_, fun i j name e e' hne hi hj => ?_⟩,
        grows_refl w.dir⟩
      · rcases List.mem_append.mp hwon with hold | hnew
        · exact h.won name e hold
        · exact absurd (List.mem_singleton.mp hnew).symm (received_ne_won body name e)
      · have hold : ∀ {n : ℕ} {e : Entry}, (w.posts ++ [received body])[n]? = some (.won name e) →
            w.posts[n]? = some (.won name e) := by
          intro n e hn
          rw [List.getElem?_append] at hn
          split_ifs at hn with hlt
          · exact hn
          · have hmem := List.mem_of_getElem? hn
            exact absurd (List.mem_singleton.mp hmem).symm (received_ne_won body name e)
        exact h.distinct i j name e e' hne (hold hi) (hold hj)
  | look i =>
      unfold ChainDir.step
      dsimp only
      split
      · split
        · exact h.advance i nofun
        · exact h.advance i nofun
      · exact h.keeps
  | measure i =>
      unfold ChainDir.step
      dsimp only
      split
      · split_ifs
        · exact h.advance i nofun
        · exact h.advance i nofun
      · exact h.keeps
  | enter i =>
      have hinside : Keeps store w (w.advance i .inside) := h.advance i nofun
      have key : ∀ critical : Critical, critical.Holds store.chainId w.dir →
          Keeps store w ⟨w.dir, some (i, critical), w.posts.set i .inside⟩ := by
        intro critical hholds
        refine ⟨⟨h.trail, fun j critical' hj => ?_, hinside.sound.won, hinside.sound.distinct⟩,
          grows_refl w.dir⟩
        obtain ⟨rfl, rfl⟩ := Prod.mk.inj (Option.some.inj hj)
        exact hholds
      unfold ChainDir.step
      dsimp only
      split
      · exact key _ trivial
      · exact key _ trivial
      · exact h.keeps
  | work call =>
      unfold ChainDir.step
      dsimp only
      split
      · exact h.keeps
      · next i critical hholder => exact h.work call (h.holder i critical hholder)
  | other name file =>
      unfold ChainDir.step
      dsimp only
      split_ifs with hname
      · exact h.keeps
      · rw [Bool.not_eq_true] at hname
        obtain ⟨htrail, hgrows⟩ := h.trail.other file hname
        exact ⟨⟨htrail, fun i critical hcritical => holds_other (h.holder i critical hcritical) file
          hname, fun name' e hwon => (h.won name' e hwon).grows hgrows, h.distinct⟩, hgrows⟩

omit [Hashlib] in
theorem sound_fresh {dir : Directory} (h : ∀ name ∈ dir, isTrailSegment name = false) :
    (fresh dir).Sound store where
  trail := by
    have hnone : ∀ {k : ℕ}, k ≤ 10 ^ segmentDigits → segmentAt k ∉ dir := fun hk hmem => by
      have hfalse := h _ hmem
      rw [isTrailSegment_segmentAt hk] at hfalse
      cases hfalse
    exact ⟨fun k hk hmem => absurd hmem (hnone hk), fun n hn hmem => absurd hmem (hnone hn)⟩
  holder := nofun
  won := nofun
  distinct := nofun

/-- **The invariant of a run.** -/
theorem Sound.run (h : w.Sound store) (steps : List ServerStep) : (w.run store steps).Sound store := by
  induction steps generalizing w with
  | nil => exact h
  | cons s steps ih => exact ih (h.step s).sound

end ChainDir

/-! ## Any interleaving of requests -/

/-- Every row is in its position, and linked to the row before. -/
structure InPosition (rows : List Entry) : Prop where
  seq : ∀ (i : ℕ) (row : Entry), rows[i]? = some row → row.header.seq = i
  first : ∀ row : Entry, rows[0]? = some row → row.header.prevHash = genesisPrevHash
  next : ∀ (i : ℕ) (row row' : Entry), rows[i]? = some row → rows[i + 1]? = some row' →
    row'.header.prevHash = row.entryHash

omit [Interpreter] [Hashlib] in
theorem inPosition_of_linked {rows : List Entry} (h : Linked rows) : InPosition rows := by
  have hlink : ∀ {i : ℕ} {row : Entry}, rows[i]? = some row →
      row.backLink = nextLink (rows.take i) := fun hrow => h.prev_eq hrow
  refine ⟨fun i row hrow => ?_, fun row hrow => ?_, fun i row row' hrow hrow' => ?_⟩
  · have hprefix : Linked (rows.take i) := by
      rw [Linked, ← List.take_append_drop i rows, chained_append] at h
      exact h.1
    have hcount := nextLink_fst hprefix
    rw [← hlink hrow, List.length_take,
      min_eq_left (List.getElem?_eq_some_iff.mp hrow).1.le] at hcount
    exact hcount
  · exact congrArg Prod.snd (hlink hrow)
  · have hprev := congrArg Prod.snd (hlink hrow')
    obtain ⟨hlt, rfl⟩ := List.getElem?_eq_some_iff.mp hrow
    rw [List.take_succ_eq_append_getElem hlt, nextLink_append_singleton] at hprev
    exact hprev

/-- The segment opens with a rotation binding, and the segment before it ends in the row that
was bound. -/
structure SealedBefore (chainId : PyStr) (dir : Directory) (n : ℕ) (name : PyStr) : Prop where
  binding : ∃ binding : HandoffBinding,
    binding.chainId = segmentChainId chainId (segmentIdentity (segmentAt n)) ∧
    (∃ rows first payload, entries (fileOf dir name) = .ok rows ∧ rows.head? = some first ∧
      first.header.payloadType = rotationPayloadType ∧
      decodePayload first.payload = .ok (some payload) ∧
      HandoffBinding.fromPayload payload = .ok binding) ∧
    ∃ rows last, entries (fileOf dir (segmentAt n)) = .ok rows ∧ rows.getLast? = some last ∧
      last.header.seq = binding.seq ∧ last.entryHash = binding.headHash

omit [Interpreter] [Hashlib] in
theorem noSurrogatePair_chainId (store : ChainStore) (n : ℕ) :
    NoSurrogatePair (segmentChainId store.chainId (segmentIdentity (segmentAt n))) := by
  have hname : IsFileName (segmentAt n) := by
    cases n with
    | zero => exact isFileName_of_printable (by decide) rfl
    | succ n => exact isFileName_segmentFile (isFileName_of_printable (by decide) rfl) n
  have hid := hname.of_infix (segmentIdentity_isPrefix (segmentAt n)).isInfix
  have hascii : ∀ c ∈ store.chainId, isHigh c.val = false := by
    intro c hc
    have hlt := val_lt_of_isSafeName store.chainId_safe c hc
    simp only [isHigh, Bool.and_eq_false_iff, decide_eq_false_iff_not]
    omega
  refine noSurrogatePair_of_isHigh fun c hc => ?_
  rcases List.mem_append.mp hc with hc | hc
  · rcases List.mem_append.mp hc with hc | hc
    · exact hascii c hc
    · rw [List.mem_singleton.mp hc]
      decide
  · exact hid.2 c hc

omit [Hashlib] in
theorem BoundAt.sealedBefore {store : ChainStore} {dir : Directory} {n : ℕ}
    {binding : HandoffBinding} {older newer : List Entry}
    (h : BoundAt store.chainId dir n binding older newer) :
    SealedBefore store.chainId dir n (segmentAt (n + 1)) := by
  obtain ⟨first, hfirst, htype, hpayload⟩ := h.first
  obtain ⟨init, last, rfl⟩ := (List.eq_nil_or_concat' older).resolve_left h.sealedRows.ne_nil
  have htail := h.sealedTail
  rw [nextLink_append_singleton] at htail
  have hseq : last.header.seq + 1 = binding.seq + 1 := congrArg Prod.fst htail
  refine ⟨binding, h.chainId, ⟨newer, first, sortKeys binding.toPayload, h.rows.entries, hfirst,
    htype, ?_, fromPayload_sortKeys_toPayload binding⟩, init ++ [last], last, h.sealedRows.entries,
    List.getLast?_concat, by omega, congrArg Prod.snd htail⟩
  rw [hpayload]
  exact decodePayload_canonicalJson (h.chainId ▸ noSurrogatePair_chainId store n)

omit [Interpreter] [Hashlib] in
/-- The segments are the names `segmentAt` numbers. -/
theorem exists_segmentAt {name : PyStr} (h : isTrailSegment name = true) :
    ∃ k ≤ 10 ^ segmentDigits, name = segmentAt k := by
  rcases Bool.or_eq_true_iff.mp h with hbase | hnumbered
  · exact ⟨0, Nat.zero_le _, of_decide_eq_true hbase⟩
  · obtain ⟨n, hn⟩ := Option.isSome_iff_exists.mp hnumbered
    obtain ⟨hlt, rfl⟩ := segmentOrdinal_eq_some_iff.mp hn
    exact ⟨n + 1, hlt, rfl⟩

/-- **Appends and rotations of the server are linearizable.**  After any interleaving of any
requests on a chain, the rows of every segment are in their positions; no two requests won
the same position of a segment; and every numbered segment opens with a binding of the last
row of the segment before it, which nothing was appended to since. -/
theorem chainStore_linearizable (store : ChainStore) (steps : List ServerStep) :
    (∀ name ∈ ((ChainDir.fresh ∅).run store steps).dir, isTrailSegment name = true →
      ∃ rows, entries (fileOf ((ChainDir.fresh ∅).run store steps).dir name) = .ok rows ∧
        InPosition rows) ∧
    (∀ (i j : ℕ) name e e', i ≠ j →
      ((ChainDir.fresh ∅).run store steps).posts[i]? = some (.won name e) →
      ((ChainDir.fresh ∅).run store steps).posts[j]? = some (.won name e') →
        (e.header.seq, e.header.prevHash) ≠ (e'.header.seq, e'.header.prevHash)) ∧
    ∀ n name, name ∈ ((ChainDir.fresh ∅).run store steps).dir →
      segmentOrdinal name trailStem = some n →
        SealedBefore store.chainId ((ChainDir.fresh ∅).run store steps).dir n name := by
  have hsound := (@ChainDir.sound_fresh _ store ∅
    fun name hname => absurd hname (AList.notMem_empty name)).run steps
  generalize (ChainDir.fresh ∅).run store steps = w at hsound ⊢
  refine ⟨fun name hname hsegment => ?_, fun i j name e e' hne hi hj heq => ?_,
    fun n name hname hordinal => ?_⟩
  · obtain ⟨k, hk, rfl⟩ := exists_segmentAt hsegment
    obtain ⟨rows, hrows⟩ := hsound.trail.rows k hk hname
    exact ⟨rows, hrows.entries, inPosition_of_linked hrows.wellFormed.linked⟩
  · exact hsound.distinct i j name e e' hne hi hj (congrArg Prod.fst heq)
  · obtain ⟨hlt, rfl⟩ := segmentOrdinal_eq_some_iff.mp hordinal
    obtain ⟨binding, older, newer, hbound⟩ := hsound.trail.bound n hlt hname
    exact hbound.sealedBefore

end Waxseal
