import Mathlib
import Waxseal.Base.JsonDigits
import Waxseal.Domain.Hashing
import Waxseal.Domain.Verdict

/-!
# Admission tickets

`domain/tickets.py` and `cli/tickets.py`.  An issuer hands out consecutive numbers in leases of
`L`, entries carry them, and the reconciliation compares what was issued with what the trail
carries: a number below the newest lease that is not on the trail is a drop, one in it is only a
candidate.

Reconciling splits what was issued in three (`reconcile_partitions`).  The newest lease may hold
one candidate more than the bound that is reported (`blindSpot_within_bound_iff`), and the scan
keeps apart rows it cannot read, but the reconciliation never sees them
(`dropsAreSound_iff`).
-/

namespace Waxseal

variable [Interpreter]

open Json (get? loadsDigits)

/-! ## Tickets -/

/-- `TICKET_PAYLOAD_TYPE`. -/
def ticketPayloadType : PyStr := str "application/vnd.waxseal.admission-ticket+json"

/-- `Ticket`. -/
structure Ticket where
  issuer : PyStr
  ticketId : ℤ
  issuer_ne_nil : issuer ≠ []
  ticketId_nonneg : 0 ≤ ticketId

namespace Ticket

/-- `Ticket.__post_init__`, over values read off the trail. -/
def new (issuer ticketId : Json) : Except PyErr Ticket :=
  match issuer, ticketId with
  | .str issuer, .int ticketId =>
      if h : issuer ≠ [] ∧ 0 ≤ ticketId then .ok ⟨issuer, ticketId, h.1, h.2⟩
      else .error .valueError
  -- A `bool` is an `int` to Python, and is refused by name.
  | _, _ => .error .valueError

/-- `to_payload`. -/
def toPayload (ticket : Ticket) : Json :=
  .obj [(str "issuer", .str ticket.issuer), (str "ticket_id", .int ticket.ticketId)]

/-- `from_payload`. -/
def fromPayload (payload : Json) : Except PyErr Ticket :=
  match payload with
  | .obj _ => do
      let issuer ← get? payload (str "issuer")
      let ticketId ← get? payload (str "ticket_id")
      new issuer ticketId
  | _ => .error .valueError

omit [Interpreter] in
theorem fromPayload_toPayload (ticket : Ticket) : fromPayload ticket.toPayload = .ok ticket := by
  have hnew : new (.str ticket.issuer) (.int ticket.ticketId) = .ok ticket :=
    dif_pos ⟨ticket.issuer_ne_nil, ticket.ticketId_nonneg⟩
  exact hnew

omit [Interpreter] in
theorem new_raises {issuer ticketId : Json} {e : PyErr} (h : new issuer ticketId = .error e) :
    e = .valueError := by
  unfold new at h
  split at h
  · split_ifs at h
    exact (Except.error.inj h).symm
  · exact (Except.error.inj h).symm

omit [Interpreter] in
/-- It raises `ValueError` and only `ValueError`. -/
theorem fromPayload_raises {payload : Json} {e : PyErr} (h : fromPayload payload = .error e) :
    e = .valueError := by
  cases payload with
  | obj members =>
      have hget : ∀ key, ∃ value, get? (.obj members) key = .ok value := by
        intro key
        cases hfind : members.find? (·.1 = key) with
        | none => exact ⟨.null, by simp only [get?, hfind]⟩
        | some m => exact ⟨m.2, by simp only [get?, hfind]⟩
      obtain ⟨issuer, hissuer⟩ := hget (str "issuer")
      obtain ⟨ticketId, hticket⟩ := hget (str "ticket_id")
      unfold fromPayload at h
      rw [hissuer, hticket] at h
      exact new_raises h
  | null | bool | int | float | str | arr => exact (Except.error.inj h).symm

end Ticket

/-! ## `scan_tickets` -/

/-- What a row says of tickets. -/
inductive TicketRow where
  | other
  | ticket (ticket : Ticket)
  | unreadable

/-- One turn of the loop of `scan_tickets`, up to the comparison with the issuer. -/
def TicketRow.read (entry : Entry) : Except PyErr TicketRow :=
  if entry.header.payloadType ≠ ticketPayloadType then .ok .other
  else
    match entry.payload with
    | none => .ok .unreadable
    | some payload =>
        match loadsDigits payload >>= Ticket.fromPayload with
        | .ok seen => .ok (.ticket seen)
        | .error e => if e.isValueError ∨ e = .typeError then .ok .unreadable else .error e

/-- `TicketScan`. -/
structure TicketScan where
  present : Finset ℤ
  unreadable : List ℤ

/-- The loop body of `scan_tickets`. -/
def TicketScan.add (issuer : PyStr) (scan : TicketScan) (entry : Entry) :
    Except PyErr TicketScan := do
  match ← TicketRow.read entry with
  | .other => return scan
  | .unreadable => return { scan with unreadable := scan.unreadable ++ [entry.header.seq] }
  | .ticket ticket =>
      return if ticket.issuer ≠ issuer then scan
        else { scan with present := insert ticket.ticketId scan.present }

/-- `scan_tickets`. -/
def scanTickets (entries : List Entry) (issuer : PyStr) : Except PyErr TicketScan :=
  entries.foldlM (TicketScan.add issuer) ⟨∅, []⟩

/-- The row carries ticket `t` of the issuer, for this reader to see. -/
def Carries (issuer : PyStr) (t : ℤ) (entry : Entry) : Prop :=
  ∃ ticket, TicketRow.read entry = .ok (.ticket ticket) ∧ ticket.issuer = issuer ∧
    ticket.ticketId = t

/-- What one row adds to the scan. -/
theorem TicketScan.add_eq_ok {issuer : PyStr} {scan scan' : TicketScan} {entry : Entry}
    (h : scan.add issuer entry = .ok scan') :
    (∀ t, t ∈ scan'.present ↔ t ∈ scan.present ∨ Carries issuer t entry) ∧
      (scan'.unreadable = [] ↔
        scan.unreadable = [] ∧ TicketRow.read entry ≠ .ok .unreadable) := by
  obtain ⟨row, hrow, h⟩ := bind_eq_ok_iff.mp h
  cases row with
  | other =>
      obtain rfl := Except.ok.inj h
      have hcarries : ∀ t, ¬ Carries issuer t entry := by
        rintro t ⟨ticket, hread, -⟩
        rw [hrow] at hread
        cases hread
      simp [hcarries, hrow]
  | unreadable =>
      obtain rfl := Except.ok.inj h
      have hcarries : ∀ t, ¬ Carries issuer t entry := by
        rintro t ⟨ticket, hread, -⟩
        rw [hrow] at hread
        cases hread
      simp [hcarries, hrow]
  | ticket ticket =>
      obtain rfl := Except.ok.inj h
      have hcarries : ∀ t, Carries issuer t entry ↔ ticket.issuer = issuer ∧ ticket.ticketId = t := by
        intro t
        constructor
        · rintro ⟨ticket', hread, hcarried⟩
          rw [hrow] at hread
          cases hread
          exact hcarried
        · exact fun hcarried => ⟨ticket, hrow, hcarried⟩
      by_cases hissuer : ticket.issuer = issuer
      · simp [hcarries, hrow, hissuer, or_comm, eq_comm]
      · simp [hcarries, hrow, hissuer]

theorem TicketScan.isOk_add (issuer : PyStr) (scan : TicketScan) {entry : Entry} :
    (∃ scan', scan.add issuer entry = .ok scan') ↔ ∃ row, TicketRow.read entry = .ok row := by
  constructor
  · rintro ⟨scan', h⟩
    obtain ⟨row, hrow, -⟩ := bind_eq_ok_iff.mp h
    exact ⟨row, hrow⟩
  · rintro ⟨row, hrow⟩
    unfold TicketScan.add
    rw [hrow]
    cases row with
    | other | unreadable | ticket => exact ⟨_, rfl⟩

theorem foldlM_add_eq_ok {issuer : PyStr} {entries : List Entry} {scan scan' : TicketScan}
    (h : entries.foldlM (TicketScan.add issuer) scan = .ok scan') :
    (∀ t, t ∈ scan'.present ↔ t ∈ scan.present ∨ ∃ entry ∈ entries, Carries issuer t entry) ∧
      (scan'.unreadable = [] ↔ scan.unreadable = [] ∧
        ∀ entry ∈ entries, TicketRow.read entry ≠ .ok .unreadable) := by
  induction entries generalizing scan with
  | nil =>
      obtain rfl := Except.ok.inj h
      simp
  | cons entry entries ih =>
      rw [List.foldlM_cons] at h
      obtain ⟨next, hadd, hrest⟩ := bind_eq_ok_iff.mp h
      obtain ⟨hpresent, hunread⟩ := ih hrest
      obtain ⟨hpresent', hunread'⟩ := TicketScan.add_eq_ok hadd
      constructor
      · intro t
        rw [hpresent, hpresent', List.exists_mem_cons_iff, or_assoc]
      · rw [hunread, hunread', List.forall_mem_cons, and_assoc]

theorem isOk_foldlM_add {issuer : PyStr} {entries : List Entry} {scan : TicketScan} :
    (∃ scan', entries.foldlM (TicketScan.add issuer) scan = .ok scan') ↔
      ∀ entry ∈ entries, ∃ row, TicketRow.read entry = .ok row := by
  induction entries generalizing scan with
  | nil => exact ⟨fun _ => nofun, fun _ => ⟨scan, rfl⟩⟩
  | cons entry entries ih =>
      rw [List.foldlM_cons, List.forall_mem_cons, ← TicketScan.isOk_add issuer scan]
      constructor
      · rintro ⟨scan', h⟩
        obtain ⟨next, hadd, hrest⟩ := bind_eq_ok_iff.mp h
        exact ⟨⟨next, hadd⟩, ih.mp ⟨scan', hrest⟩⟩
      · rintro ⟨⟨next, hadd⟩, hrest⟩
        obtain ⟨scan', hscan⟩ := ih.mpr hrest
        exact ⟨scan', bind_eq_ok_iff.mpr ⟨next, hadd, hscan⟩⟩

/-- **What a scan finds**: the numbers the readable rows carry, and whether any row was left
unread. -/
theorem scanTickets_eq_ok {entries : List Entry} {issuer : PyStr} {scan : TicketScan}
    (h : scanTickets entries issuer = .ok scan) :
    (∀ t, t ∈ scan.present ↔ ∃ entry ∈ entries, Carries issuer t entry) ∧
      (scan.unreadable = [] ↔ ∀ entry ∈ entries, TicketRow.read entry ≠ .ok .unreadable) := by
  obtain ⟨hpresent, hunread⟩ := foldlM_add_eq_ok h
  exact ⟨fun t => (hpresent t).trans (by simp), hunread.trans (by simp)⟩

/-! ## `reconcile_tickets` -/

/-- `TicketReconciliation`. -/
structure TicketReconciliation where
  measured : Bool
  leaseSize : ℤ
  verdict : Verdict
  missing : Option (List ℤ)
  blindSpotWindow : Option (ℤ × ℤ)
  blindSpotMissing : Option (List ℤ)
  blindSpotBound : ℤ

section Reconcile

omit [Interpreter]

/-- `window_lo`: where the lease of the largest issued number begins. -/
def windowLo (issued : Finset ℤ) (leaseSize : ℤ) : ℤ :=
  if h : issued.Nonempty then issued.max' h / leaseSize * leaseSize else 0

/-- `window_hi`. -/
def windowHi (issued : Finset ℤ) (leaseSize : ℤ) : ℤ := windowLo issued leaseSize + leaseSize - 1

/-- Issued below the open lease, and not on the trail. -/
def droppedTickets (present issued : Finset ℤ) (leaseSize : ℤ) : Finset ℤ :=
  {t ∈ issued | t < windowLo issued leaseSize ∧ t ∉ present}

/-- Issued in the open lease, and not on the trail. -/
def openTickets (present issued : Finset ℤ) (leaseSize : ℤ) : Finset ℤ :=
  {t ∈ issued | (windowLo issued leaseSize ≤ t ∧ t ≤ windowHi issued leaseSize) ∧ t ∉ present}

/-- `reconcile_tickets`. -/
def reconcileTickets (present : Finset ℤ) (issued : Option (Finset ℤ)) (leaseSize : ℤ) :
    Except PyErr TicketReconciliation :=
  if leaseSize < 1 then .error .valueError
  else
    match issued with
    | none =>
        .ok { measured := false, leaseSize, verdict := .unverifiable, missing := none,
              blindSpotWindow := none, blindSpotMissing := none, blindSpotBound := leaseSize - 1 }
    | some issued =>
        if ∃ t ∈ issued, t < 0 then .error .valueError
        else if issued = ∅ then
          .ok { measured := true, leaseSize, verdict := .ok, missing := some [],
                blindSpotWindow := none, blindSpotMissing := some [],
                blindSpotBound := leaseSize - 1 }
        else
          let missing := (droppedTickets present issued leaseSize).sort
          .ok { measured := true, leaseSize,
                verdict := if missing ≠ [] then .broken else .ok,
                missing := some missing,
                blindSpotWindow := some (windowLo issued leaseSize, windowHi issued leaseSize),
                blindSpotMissing := some (openTickets present issued leaseSize).sort,
                blindSpotBound := leaseSize - 1 }

variable {present issued : Finset ℤ} {leaseSize : ℤ}

theorem mem_droppedTickets {t : ℤ} : t ∈ droppedTickets present issued leaseSize ↔
    t ∈ issued ∧ t < windowLo issued leaseSize ∧ t ∉ present := Finset.mem_filter

theorem mem_openTickets {t : ℤ} : t ∈ openTickets present issued leaseSize ↔
    t ∈ issued ∧ (windowLo issued leaseSize ≤ t ∧ t ≤ windowHi issued leaseSize) ∧
      t ∉ present := Finset.mem_filter

variable (present) in
/-- **What a reconciliation answers** about numbers that were issued. -/
theorem reconcileTickets_issued (hlease : 1 ≤ leaseSize) (hissued : ∀ t ∈ issued, 0 ≤ t) :
    ∃ result, reconcileTickets present (some issued) leaseSize = .ok result ∧
      result.missing = some (droppedTickets present issued leaseSize).sort ∧
      result.blindSpotMissing = some (openTickets present issued leaseSize).sort ∧
      result.blindSpotBound = leaseSize - 1 ∧
      (result.verdict = .broken ↔ droppedTickets present issued leaseSize ≠ ∅) ∧
      (result.verdict = .ok ↔ droppedTickets present issued leaseSize = ∅) := by
  have hneg : ¬ ∃ t ∈ issued, t < 0 := by
    rintro ⟨t, ht, hlt⟩
    exact absurd (hissued t ht) (by omega)
  unfold reconcileTickets
  rw [if_neg (by omega)]
  simp only [if_neg hneg]
  by_cases hempty : issued = ∅
  · subst hempty
    refine ⟨_, if_pos rfl, ?_, ?_, rfl, ?_, ?_⟩
    · simp [droppedTickets]
    · simp [openTickets]
    · simp [droppedTickets]
    · simp [droppedTickets]
  · have hsort : (droppedTickets present issued leaseSize).sort = [] ↔
        droppedTickets present issued leaseSize = ∅ := by
      rw [← List.length_eq_zero_iff, Finset.length_sort, Finset.card_eq_zero]
    refine ⟨_, if_neg hempty, rfl, rfl, rfl, ?_, ?_⟩
    · by_cases hdropped : droppedTickets present issued leaseSize = ∅
      · simp [hdropped]
      · simp [hsort, hdropped]
    · by_cases hdropped : droppedTickets present issued leaseSize = ∅
      · simp [hdropped]
      · simp [hsort, hdropped]

/-- A reconciliation that answers was asked for leases of at least one, and for numbers that can
have been issued. -/
theorem reconcileTickets_eq_ok {asked : Option (Finset ℤ)} {result : TicketReconciliation}
    (h : reconcileTickets present asked leaseSize = .ok result) :
    1 ≤ leaseSize ∧ ∀ issued ∈ asked, ∀ t ∈ issued, 0 ≤ t := by
  unfold reconcileTickets at h
  split_ifs at h with hlease
  refine ⟨by omega, ?_⟩
  rintro issued rfl t ht
  have hneg : ¬ ∃ t ∈ issued, t < 0 := by
    intro hneg
    simp only [if_pos hneg] at h
    cases h
  by_contra hlt
  exact hneg ⟨t, ht, by omega⟩

/-! ## What was issued, split in three -/

/-- No number lies beyond the open lease. -/
theorem le_windowHi (hlease : 1 ≤ leaseSize) {t : ℤ} (ht : t ∈ issued) :
    t ≤ windowHi issued leaseSize := by
  have hmax : t ≤ issued.max' ⟨t, ht⟩ := issued.le_max' t ht
  have hdiv := Int.mul_ediv_add_emod (issued.max' ⟨t, ht⟩) leaseSize
  have hmod := Int.emod_lt_of_pos (issued.max' ⟨t, ht⟩) (show 0 < leaseSize by omega)
  rw [windowHi, windowLo, dif_pos ⟨t, ht⟩]
  rw [Int.mul_comm] at hdiv
  omega

/-- Issuing more moves the open lease up. -/
theorem windowLo_mono {issued' : Finset ℤ} (hlease : 1 ≤ leaseSize) (hsub : issued ⊆ issued')
    (hne : issued.Nonempty) : windowLo issued leaseSize ≤ windowLo issued' leaseSize := by
  rw [windowLo, windowLo, dif_pos hne, dif_pos (hne.mono hsub)]
  have hmax := Finset.max'_subset hne hsub
  exact Int.mul_le_mul_of_nonneg_right (Int.ediv_le_ediv (by omega) hmax) (by omega)

/-- More issued and fewer present: no drop is taken back. -/
theorem droppedTickets_mono {present' issued' : Finset ℤ} (hlease : 1 ≤ leaseSize)
    (hpresent : present' ⊆ present) (hissued : issued ⊆ issued') :
    droppedTickets present issued leaseSize ⊆ droppedTickets present' issued' leaseSize := by
  intro t ht
  obtain ⟨hmem, hlt, habsent⟩ := mem_droppedTickets.mp ht
  have hlo := windowLo_mono hlease hissued ⟨t, hmem⟩
  exact mem_droppedTickets.mpr ⟨hissued hmem, by omega, fun h => habsent (hpresent h)⟩

/-- The numbers are the disjoint union of those present, the drops and the candidates. -/
structure SplitsIssued (present issued : Finset ℤ) (missing blind : List ℤ) : Prop where
  nodup_missing : missing.Nodup
  nodup_blind : blind.Nodup
  union : issued = issued ∩ present ∪ missing.toFinset ∪ blind.toFinset
  disjoint_missing : Disjoint (issued ∩ present) missing.toFinset
  disjoint_blind : Disjoint (issued ∩ present) blind.toFinset
  disjoint_lists : Disjoint missing.toFinset blind.toFinset

theorem splitsIssued (hlease : 1 ≤ leaseSize) :
    SplitsIssued present issued (droppedTickets present issued leaseSize).sort
      (openTickets present issued leaseSize).sort where
  nodup_missing := Finset.sort_nodup _ _
  nodup_blind := Finset.sort_nodup _ _
  union := by
    rw [Finset.sort_toFinset, Finset.sort_toFinset]
    ext t
    rw [Finset.mem_union, Finset.mem_union, Finset.mem_inter, mem_droppedTickets, mem_openTickets]
    constructor
    · intro ht
      have hhi := le_windowHi hlease ht
      by_cases hpresent : t ∈ present
      · exact .inl (.inl ⟨ht, hpresent⟩)
      rcases lt_or_ge t (windowLo issued leaseSize) with hlt | hle
      · exact .inl (.inr ⟨ht, hlt, hpresent⟩)
      · exact .inr ⟨ht, ⟨hle, hhi⟩, hpresent⟩
    · rintro ((⟨ht, -⟩ | ⟨ht, -⟩) | ⟨ht, -⟩) <;> exact ht
  disjoint_missing := by
    rw [Finset.sort_toFinset, Finset.disjoint_left]
    intro t ht hmem
    exact (mem_droppedTickets.mp hmem).2.2 (Finset.mem_inter.mp ht).2
  disjoint_blind := by
    rw [Finset.sort_toFinset, Finset.disjoint_left]
    intro t ht hmem
    exact (mem_openTickets.mp hmem).2.2 (Finset.mem_inter.mp ht).2
  disjoint_lists := by
    rw [Finset.sort_toFinset, Finset.sort_toFinset, Finset.disjoint_left]
    intro t hdropped hopen
    have hlt := (mem_droppedTickets.mp hdropped).2.1
    have hle := (mem_openTickets.mp hopen).2.1.1
    omega

/-- **A reconciliation splits what was issued**, and neither a later issue nor a missing arrival
takes a drop back. -/
theorem reconcile_partitions (hlease : 1 ≤ leaseSize) (hissued : ∀ t ∈ issued, 0 ≤ t) :
    (∃ result missing blind, reconcileTickets present (some issued) leaseSize = .ok result ∧
      result.missing = some missing ∧ result.blindSpotMissing = some blind ∧
      SplitsIssued present issued missing blind) ∧
    ∀ (present' issued' : Finset ℤ) (result result' : TicketReconciliation)
      (missing missing' : List ℤ), present' ⊆ present → issued ⊆ issued' →
      reconcileTickets present (some issued) leaseSize = .ok result →
      reconcileTickets present' (some issued') leaseSize = .ok result' →
      result.missing = some missing → result'.missing = some missing' → missing ⊆ missing' := by
  constructor
  · obtain ⟨result, hresult, hmissing, hblind, -⟩ :=
      reconcileTickets_issued present hlease hissued
    exact ⟨result, _, _, hresult, hmissing, hblind, splitsIssued hlease⟩
  · intro present' issued' result result' missing missing' hpresent hsub hresult hresult' hmissing
      hmissing' t ht
    have hissued' := (reconcileTickets_eq_ok hresult').2 issued' rfl
    obtain ⟨known, hknown, hdropped, -⟩ :=
      reconcileTickets_issued present hlease hissued
    obtain ⟨known', hknown', hdropped', -⟩ :=
      reconcileTickets_issued present' hlease hissued'
    rw [hresult] at hknown
    rw [hresult'] at hknown'
    obtain rfl := Except.ok.inj hknown
    obtain rfl := Except.ok.inj hknown'
    obtain rfl := Option.some.inj (hmissing.symm.trans hdropped)
    obtain rfl := Option.some.inj (hmissing'.symm.trans hdropped')
    rw [Finset.mem_sort] at ht ⊢
    exact droppedTickets_mono hlease hpresent hsub ht

/-- Tickets 0, 1, 3 and 4 of leases of two, and 1 and 4 on the trail. -/
theorem reconcile_partitions_two :
    1 ≤ (2 : ℤ) ∧ (∀ t ∈ ({0, 1, 3, 4} : Finset ℤ), 0 ≤ t) ∧
      ∃ result missing blind, reconcileTickets {1, 4} (some {0, 1, 3, 4}) 2 = .ok result ∧
        result.missing = some missing ∧ result.blindSpotMissing = some blind ∧
        SplitsIssued {1, 4} {0, 1, 3, 4} missing blind :=
  ⟨by decide, by decide, (reconcile_partitions (by decide) (by decide)).1⟩

/-! ## The bound of the blind spot -/

theorem openTickets_subset (present issued : Finset ℤ) (leaseSize : ℤ) :
    openTickets present issued leaseSize ⊆
      Finset.Icc (windowLo issued leaseSize) (windowHi issued leaseSize) := by
  intro t ht
  exact Finset.mem_Icc.mpr (mem_openTickets.mp ht).2.1

theorem card_window (issued : Finset ℤ) (hlease : 1 ≤ leaseSize) :
    ((Finset.Icc (windowLo issued leaseSize) (windowHi issued leaseSize)).card : ℤ) = leaseSize := by
  rw [Int.card_Icc, windowHi, Int.toNat_of_nonneg (by omega)]
  omega

/-- The whole lease of the largest issued number was issued, and none of it is on the trail. -/
def OpenLeaseAbsent (present issued : Finset ℤ) (leaseSize : ℤ) : Prop :=
  ∃ top ∈ issued, (∀ t ∈ issued, t ≤ top) ∧
    ∀ t, t / leaseSize = top / leaseSize → t ∈ issued ∧ t ∉ present

/-- The window is the lease of the largest issued number. -/
theorem mem_window_iff (hlease : 1 ≤ leaseSize) {top : ℤ} (htop : top ∈ issued)
    (hmax : ∀ t ∈ issued, t ≤ top) (t : ℤ) :
    t ∈ Finset.Icc (windowLo issued leaseSize) (windowHi issued leaseSize) ↔
      t / leaseSize = top / leaseSize := by
  have hlo : windowLo issued leaseSize = top / leaseSize * leaseSize := by
    rw [windowLo, dif_pos ⟨top, htop⟩]
    rw [(issued.max'_eq_iff ⟨top, htop⟩ top).mpr ⟨htop, hmax⟩]
  rw [Finset.mem_Icc, windowHi, hlo]
  have hpos : 0 < leaseSize := by omega
  constructor
  · rintro ⟨hge, hle⟩
    refine le_antisymm ?_ ((Int.le_ediv_iff_mul_le hpos).mpr hge)
    refine Int.lt_add_one_iff.mp (Int.ediv_lt_of_lt_mul hpos ?_)
    rw [Int.add_mul, Int.one_mul]
    omega
  · intro h
    have hdiv := Int.mul_ediv_add_emod t leaseSize
    have hmod := Int.emod_lt_of_pos t hpos
    have hnonneg := Int.emod_nonneg t hpos.ne'
    rw [h, Int.mul_comm] at hdiv
    omega

/-- The open lease is absent as a whole if every number of the window is a candidate. -/
theorem openLeaseAbsent_iff (hlease : 1 ≤ leaseSize) :
    OpenLeaseAbsent present issued leaseSize ↔ issued.Nonempty ∧
      Finset.Icc (windowLo issued leaseSize) (windowHi issued leaseSize) ⊆
        openTickets present issued leaseSize := by
  constructor
  · rintro ⟨top, htop, hmax, habsent⟩
    refine ⟨⟨top, htop⟩, fun t ht => ?_⟩
    obtain ⟨hmem, hpresent⟩ := habsent t ((mem_window_iff hlease htop hmax t).mp ht)
    exact mem_openTickets.mpr ⟨hmem, Finset.mem_Icc.mp ht, hpresent⟩
  · rintro ⟨hne, hfull⟩
    refine ⟨issued.max' hne, issued.max'_mem hne, issued.le_max', fun t ht => ?_⟩
    have hwindow := (mem_window_iff hlease (issued.max'_mem hne) issued.le_max' t).mpr ht
    obtain ⟨hmem, -, hpresent⟩ := mem_openTickets.mp (hfull hwindow)
    exact ⟨hmem, hpresent⟩

/-- **The candidates are within the bound unless the open lease is absent as a whole.** -/
theorem blindSpot_within_bound_iff (hlease : 1 ≤ leaseSize) (hissued : ∀ t ∈ issued, 0 ≤ t) :
    (∃ result blind, reconcileTickets present (some issued) leaseSize = .ok result ∧
      result.blindSpotMissing = some blind ∧ (blind.length : ℤ) ≤ result.blindSpotBound) ↔
      ¬ OpenLeaseAbsent present issued leaseSize := by
  obtain ⟨known, hknown, -, hopen, hbound, -⟩ :=
    reconcileTickets_issued present hlease hissued
  have hcard := card_window issued hlease
  have hsub := openTickets_subset present issued leaseSize
  rw [openLeaseAbsent_iff hlease]
  constructor
  · rintro ⟨result, blind, hresult, hblind, hle⟩ ⟨-, hfull⟩
    rw [hknown] at hresult
    obtain rfl := Except.ok.inj hresult
    obtain rfl := Option.some.inj (hopen.symm.trans hblind)
    rw [Finset.length_sort, hsub.antisymm hfull, hcard, hbound] at hle
    omega
  · intro habsent
    refine ⟨known, _, hknown, hopen, ?_⟩
    rw [Finset.length_sort, hbound]
    by_cases hne : issued.Nonempty
    · have hlt : (openTickets present issued leaseSize).card <
          (Finset.Icc (windowLo issued leaseSize) (windowHi issued leaseSize)).card :=
        Finset.card_lt_card ⟨hsub, fun hfull => habsent ⟨hne, hfull⟩⟩
      omega
    · have hnone : openTickets present issued leaseSize = ∅ := by
        rw [Finset.not_nonempty_iff_eq_empty.mp hne]
        rfl
      rw [hnone, Finset.card_empty]
      omega

/-- Of the lease 2, 3 one number reached the trail. -/
theorem blindSpot_within_bound_two :
    1 ≤ (2 : ℤ) ∧ (∀ t ∈ ({2, 3} : Finset ℤ), 0 ≤ t) ∧
      ((∃ result blind, reconcileTickets {3} (some {2, 3}) 2 = .ok result ∧
        result.blindSpotMissing = some blind ∧ (blind.length : ℤ) ≤ result.blindSpotBound) ↔
        ¬ OpenLeaseAbsent {3} {2, 3} 2) :=
  ⟨by decide, by decide, blindSpot_within_bound_iff (by decide) (by decide)⟩

/-- One ticket of a lease of one, and it is not on the trail: one candidate, and the bound is
zero. -/
theorem blindSpot_exceeds_bound :
    ¬ ∀ (present issued : Finset ℤ) (leaseSize : ℤ) (result : TicketReconciliation)
      (blind : List ℤ), 1 ≤ leaseSize → (∀ t ∈ issued, 0 ≤ t) →
      reconcileTickets present (some issued) leaseSize = .ok result →
      result.blindSpotMissing = some blind → (blind.length : ℤ) ≤ result.blindSpotBound := by
  intro h
  obtain ⟨result, hresult, -, hopen, hbound, -⟩ :=
    reconcileTickets_issued ∅ (by decide : (1 : ℤ) ≤ 1)
      (by decide : ∀ t ∈ ({0} : Finset ℤ), 0 ≤ t)
  have hle := h ∅ {0} 1 result _ (by decide) (by decide) hresult hopen
  have hcard : (openTickets ∅ {0} 1).card = 1 := by
    rw [openTickets, windowHi, windowLo, dif_pos (Finset.singleton_nonempty 0),
      Finset.max'_singleton]
    decide
  rw [Finset.length_sort, hcard, hbound] at hle
  omega

end Reconcile

/-! ## `_reconcile_tickets` -/

/-- What the command answers. -/
inductive TicketAnswer where
  | nothingChecked
  | report (result : TicketReconciliation) (unreadable : List ℤ) (verdict : Verdict)

/-- `_reconcile_tickets`, of the entries of a trail and what `--issued` was parsed to. -/
def reconcileTrail (entries : List Entry) (issuer : PyStr) (issued : Option (Finset ℤ))
    (leaseSize : ℤ) : Except PyErr TicketAnswer := do
  let scan ← scanTickets entries issuer
  match reconcileTickets scan.present issued leaseSize with
  | .error e => if e.isValueError then return .nothingChecked else .error e
  | .ok result =>
      let verdict := if scan.unreadable ≠ [] then result.verdict.join .unverifiable
        else result.verdict
      return .report result scan.unreadable verdict

/-- A trail carries ticket `t` of the issuer if the rows that could not be read hold `contents`. -/
def CarriedUnder (contents : ℕ → Option Ticket) (entries : List Entry) (issuer : PyStr) (t : ℤ) :
    Prop :=
  ∃ i entry, entries[i]? = some entry ∧
    (Carries issuer t entry ∨ TicketRow.read entry = .ok .unreadable ∧
      ∃ ticket, contents i = some ticket ∧ ticket.issuer = issuer ∧ ticket.ticketId = t)

/-- The drops a reconciliation reports are drops, whatever the unread rows hold. -/
structure DropsAreSound (entries : List Entry) (issuer : PyStr) (issued : Option (Finset ℤ))
    (leaseSize : ℤ) : Prop where
  carried_by_none : ∀ result unreadable verdict missing,
    reconcileTrail entries issuer issued leaseSize = .ok (.report result unreadable verdict) →
    result.missing = some missing → ∀ t ∈ missing, ∀ contents,
    ¬ CarriedUnder contents entries issuer t
  at_most_unverifiable : ∀ result unreadable verdict missing,
    reconcileTrail entries issuer issued leaseSize = .ok (.report result unreadable verdict) →
    result.missing = some missing →
    (∃ t ∈ missing, ∃ contents, CarriedUnder contents entries issuer t) →
    verdict.severity ≤ Verdict.unverifiable.severity

/-- A trail where a number counts as dropped and an unread row may carry it. -/
structure UnreadDrop (entries : List Entry) (issuer : PyStr) (issued : Finset ℤ) (leaseSize : ℤ) :
    Prop where
  named : issuer ≠ []
  lease : 1 ≤ leaseSize
  rows : ∀ entry ∈ entries, ∃ row, TicketRow.read entry = .ok row
  unread : ∃ entry ∈ entries, TicketRow.read entry = .ok .unreadable
  numbers : ∀ t ∈ issued, 0 ≤ t
  /-- Some number lies below the lease of a later one, and no row that can be read carries it. -/
  dropped : ∃ t ∈ issued, ∃ top ∈ issued, t < top / leaseSize * leaseSize ∧
    ∀ entry ∈ entries, ¬ Carries issuer t entry

omit [Interpreter] in
theorem lt_windowLo_iff {issued : Finset ℤ} {leaseSize t : ℤ} (hlease : 1 ≤ leaseSize)
    (ht : t ∈ issued) :
    t < windowLo issued leaseSize ↔ ∃ top ∈ issued, t < top / leaseSize * leaseSize := by
  rw [windowLo, dif_pos ⟨t, ht⟩]
  constructor
  · exact fun h => ⟨_, issued.max'_mem ⟨t, ht⟩, h⟩
  · rintro ⟨top, htop, hlt⟩
    have hdiv : top / leaseSize ≤ issued.max' ⟨t, ht⟩ / leaseSize :=
      Int.ediv_le_ediv (by omega) (issued.le_max' top htop)
    exact lt_of_lt_of_le hlt (Int.mul_le_mul_of_nonneg_right hdiv (by omega))

theorem reconcileTrail_eq_report {entries : List Entry} {issuer : PyStr}
    {issued : Option (Finset ℤ)} {leaseSize : ℤ} {result : TicketReconciliation}
    {unreadable : List ℤ} {verdict : Verdict}
    (h : reconcileTrail entries issuer issued leaseSize = .ok (.report result unreadable verdict)) :
    ∃ scan, scanTickets entries issuer = .ok scan ∧
      reconcileTickets scan.present issued leaseSize = .ok result := by
  obtain ⟨scan, hscan, h⟩ := bind_eq_ok_iff.mp h
  refine ⟨scan, hscan, ?_⟩
  cases hresult : reconcileTickets scan.present issued leaseSize with
  | error e =>
      simp only [hresult] at h
      split_ifs at h
      cases h
  | ok known =>
      simp only [hresult] at h
      cases h
      rfl

/-- The unread row may hold just the number that counts as dropped. -/
theorem UnreadDrop.not_dropsAreSound {entries : List Entry} {issuer : PyStr} {issued : Finset ℤ}
    {leaseSize : ℤ} (h : UnreadDrop entries issuer issued leaseSize) :
    ¬ DropsAreSound entries issuer (some issued) leaseSize := by
  intro hsound
  obtain ⟨row, hrow, hunread⟩ := h.unread
  obtain ⟨t, ht, top, htop, hlt, habsent⟩ := h.dropped
  obtain ⟨scan, hscan⟩ : ∃ scan, entries.foldlM (TicketScan.add issuer) ⟨∅, []⟩ = .ok scan :=
    isOk_foldlM_add.mpr h.rows
  obtain ⟨result, hresult, hmissing, -⟩ :=
    reconcileTickets_issued scan.present h.lease h.numbers
  have hreport : reconcileTrail entries issuer (some issued) leaseSize =
      .ok (.report result scan.unreadable
        (if scan.unreadable ≠ [] then result.verdict.join .unverifiable else result.verdict)) := by
    refine bind_eq_ok_iff.mpr ⟨scan, hscan, ?_⟩
    simp only [hresult]
    rfl
  have hdropped : t ∈ (droppedTickets scan.present issued leaseSize).sort := by
    rw [Finset.mem_sort, mem_droppedTickets]
    refine ⟨ht, (lt_windowLo_iff h.lease ht).mpr ⟨top, htop, hlt⟩, fun hpresent => ?_⟩
    obtain ⟨entry, hentry, hcarries⟩ := ((scanTickets_eq_ok hscan).1 t).mp hpresent
    exact habsent entry hentry hcarries
  obtain ⟨i, hi⟩ := List.getElem?_of_mem hrow
  refine hsound.carried_by_none result _ _ _ hreport hmissing t hdropped
    (fun _ => some ⟨issuer, t, h.named, h.numbers t ht⟩) ⟨i, row, hi, .inr ⟨hunread, ?_⟩⟩
  exact ⟨_, rfl, rfl, rfl⟩

/-- A drop that an unread row may carry is reported on such a trail only. -/
theorem unreadDrop_of_carriedUnder {entries : List Entry} {issuer : PyStr}
    {issued : Option (Finset ℤ)} {leaseSize : ℤ} {result : TicketReconciliation}
    {unreadable : List ℤ} {verdict : Verdict} {missing : List ℤ} {t : ℤ}
    {contents : ℕ → Option Ticket}
    (hreport : reconcileTrail entries issuer issued leaseSize =
      .ok (.report result unreadable verdict))
    (hmissing : result.missing = some missing) (ht : t ∈ missing)
    (hunder : CarriedUnder contents entries issuer t) :
    ∃ numbers ∈ issued, UnreadDrop entries issuer numbers leaseSize := by
  obtain ⟨scan, hscan, hresult⟩ := reconcileTrail_eq_report hreport
  obtain ⟨hlease, hvalid⟩ := reconcileTickets_eq_ok hresult
  cases issued with
  | none =>
      -- Nothing is missing from an issuer that could not be asked.
      rw [reconcileTickets, if_neg (by omega)] at hresult
      obtain rfl := Except.ok.inj hresult
      cases hmissing
  | some issued =>
      have hissued := hvalid issued rfl
      obtain ⟨known, hknown, hdropped, -⟩ :=
        reconcileTickets_issued scan.present hlease hissued
      obtain rfl := Except.ok.inj (hresult.symm.trans hknown)
      obtain rfl := Option.some.inj (hmissing.symm.trans hdropped)
      obtain ⟨hmem, hlt, habsent⟩ := mem_droppedTickets.mp ((Finset.mem_sort _).mp ht)
      have hseen : ∀ entry ∈ entries, ¬ Carries issuer t entry := by
        intro entry hentry hcarries
        exact habsent (((scanTickets_eq_ok hscan).1 t).mpr ⟨entry, hentry, hcarries⟩)
      obtain ⟨i, entry, hentry, hcarries⟩ := hunder
      have hread := List.mem_of_getElem? hentry
      rcases hcarries with hcarries | ⟨hunread, ticket, -, hissuer, -⟩
      · exact absurd hcarries (hseen entry hread)
      · obtain ⟨top, htop, hbelow⟩ := (lt_windowLo_iff hlease hmem).mp hlt
        exact ⟨issued, rfl,
          { named := hissuer ▸ ticket.issuer_ne_nil
            lease := hlease
            rows := isOk_foldlM_add.mp ⟨scan, hscan⟩
            unread := ⟨entry, hread, hunread⟩
            numbers := hissued
            dropped := ⟨t, hmem, top, htop, hbelow, hseen⟩ }⟩

/-- **When the drops are sound**: unless a number counts as dropped while some row was left
unread. -/
theorem dropsAreSound_iff (entries : List Entry) (issuer : PyStr) (issued : Option (Finset ℤ))
    (leaseSize : ℤ) :
    DropsAreSound entries issuer issued leaseSize ↔
      ∀ numbers ∈ issued, ¬ UnreadDrop entries issuer numbers leaseSize := by
  constructor
  · rintro hsound numbers rfl hunread
    exact hunread.not_dropsAreSound hsound
  · intro hnone
    refine ⟨?_, ?_⟩
    · intro result unreadable verdict missing hreport hmissing t ht contents hunder
      obtain ⟨numbers, hnumbers, hunread⟩ :=
        unreadDrop_of_carriedUnder hreport hmissing ht hunder
      exact hnone numbers hnumbers hunread
    · rintro result unreadable verdict missing hreport hmissing ⟨t, ht, contents, hunder⟩
      obtain ⟨numbers, hnumbers, hunread⟩ :=
        unreadDrop_of_carriedUnder hreport hmissing ht hunder
      exact absurd hunread (hnone numbers hnumbers)

omit [Interpreter] in
/-- One ticket entry read without its payload: tickets 0 and 1 were issued in leases of one, and 0
is reported as dropped although the entry may carry it. -/
theorem unread_row_reported_dropped :
    letI := Interpreter.plain
    ¬ ∀ entries issuer issued leaseSize, DropsAreSound entries issuer issued leaseSize := by
  let _ := Interpreter.plain
  intro h
  let entry : Entry :=
    { header := { seq := 0, ts := [], hashVersion := [], payloadType := ticketPayloadType,
                  payloadHash := [], prevHash := [] }
      entryHash := [], payload := none }
  have hread : TicketRow.read entry = .ok .unreadable := if_neg (by simp [entry])
  refine UnreadDrop.not_dropsAreSound ?_ (h [entry] (str "issuer") (some {0, 1}) 1)
  refine
    { named := by decide
      lease := by decide
      rows := by simp [hread]
      unread := ⟨entry, List.mem_singleton_self _, hread⟩
      numbers := by decide
      dropped := ⟨0, by decide, 1, by decide, by decide, ?_⟩ }
  rintro e he ⟨ticket, hticket, -⟩
  obtain rfl := List.mem_singleton.mp he
  rw [hread] at hticket
  cases hticket

end Waxseal
