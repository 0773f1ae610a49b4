import Waxseal.Base.JsonRecords
import Waxseal.Integrations.StdinHook
import Waxseal.Log.Accounting

/-!
# What the stdin hooks promise

Whatever stdin holds and whichever steps fail, a hook exits with 0, writes nothing to
stdout, and stores the event as one entry or says on stderr that it is lost (`Keeps`).

It does so exactly when the steps outside its guard raise nothing (`hook_keeps_iff`): the
target is resolved before the guard, the payload is built behind it, and where opening the
trail fails, the place of the `.drops` file is looked up in the handler itself.
-/

namespace Waxseal

open Json

/-! ## How deep an event nests -/

section

mutual

/-- How many values are nested in each other. -/
def nesting : Json → ℕ
  | .arr items => nestingItems items + 1
  | .obj members => nestingMembers members + 1
  | _ => 1

/-- The deepest of the items. -/
def nestingItems : List Json → ℕ
  | [] => 0
  | item :: items => max (nesting item) (nestingItems items)

/-- The deepest of the values. -/
def nestingMembers : List (PyStr × Json) → ℕ
  | [] => 0
  | (_, value) :: members => max (nesting value) (nestingMembers members)

end

theorem nestingItems_le {items : List Json} {n : ℕ} :
    nestingItems items ≤ n ↔ ∀ item ∈ items, nesting item ≤ n := by
  induction items with
  | nil => simp [nestingItems]
  | cons item items ih => rw [nestingItems, max_le_iff, ih, List.forall_mem_cons]

theorem nestingMembers_le {members : List (PyStr × Json)} {n : ℕ} :
    nestingMembers members ≤ n ↔ ∀ m ∈ members, nesting m.2 ≤ n := by
  induction members with
  | nil => simp [nestingMembers]
  | cons m members ih =>
      obtain ⟨key, value⟩ := m
      rw [nestingMembers, max_le_iff, ih, List.forall_mem_cons]

/-- **`sanitize` raises exactly where a value nests deeper than it may recurse.** -/
theorem isOk_sanitize {redactText : PyStr → PyStr} {depth : ℕ} {value : Json} :
    (∃ clean, sanitize redactText depth value = .ok clean) ↔ nesting value ≤ depth := by
  induction depth generalizing value with
  | zero =>
      have hpos : 0 < nesting value := by
        cases value <;> rw [nesting] <;> first | exact Nat.succ_pos _ | nofun
      constructor
      · rintro ⟨clean, h⟩
        rw [sanitize] at h
        cases h
      · exact fun h => absurd h (not_le.mpr hpos)
  | succ depth ih =>
      cases value with
      | obj members =>
          rw [sanitize, isOk_map, isOk_mapM, nesting, Nat.add_le_add_iff_right, nestingMembers_le]
          exact forall₂_congr fun m _ => isOk_map.trans ih
      | arr items =>
          rw [sanitize, isOk_map, isOk_mapM, nesting, Nat.add_le_add_iff_right, nestingItems_le]
          exact forall₂_congr fun item _ => ih
      | null | bool b | int n | float lexeme | str s =>
          rw [sanitize, nesting]
          · exact ⟨fun _ => Nat.le_add_left 1 depth, fun _ => ⟨_, rfl⟩⟩
          all_goals nofun

/-- Nothing an event records nests deeper than `sanitize` may recurse. -/
def Shallow (host : HookHost) (env : HookEnv) (event : HookEvent) : Prop :=
  ∀ m ∈ host.recorded event, nesting m.2 ≤ env.depth

/-- Building the payload raises nothing exactly for the shallow events. -/
theorem isOk_buildPayload {host : HookHost} {env : HookEnv} {event : HookEvent} :
    (∃ payload, host.buildPayload env event = .ok payload) ↔ Shallow host env event := by
  have hfields := @isOk_mapM _ _
    (fun m : PyStr × Json => (fun value => (m.1, value)) <$> sanitize env.redactText env.depth m.2)
    (host.recorded event)
  have hshallow : Shallow host env event ↔ ∃ fields, (host.recorded event).mapM (fun m =>
      (fun value => (m.1, value)) <$> sanitize env.redactText env.depth m.2) = .ok fields := by
    rw [hfields]
    exact forall₂_congr fun m _ => (isOk_map.trans isOk_sanitize).symm
  rw [hshallow]
  constructor
  · rintro ⟨payload, h⟩
    obtain ⟨fields, hfields, -⟩ := bind_eq_ok_iff.mp h
    exact ⟨fields, hfields⟩
  · rintro ⟨fields, h⟩
    exact ⟨_, bind_eq_ok_iff.mpr ⟨fields, h, rfl⟩⟩

end

/-! ## Lines -/

theorem not_endsLine_cons {b : UInt8} {file : Bytes} (h : ¬ EndsLine (b :: file)) (hne : file ≠ []) :
    ¬ EndsLine file := by
  rintro (rfl | ⟨init, hinit⟩)
  · exact hne rfl
  · exact h (.inr ⟨b :: init, hinit.imp (congrArg (b :: ·)) (congrArg (b :: ·))⟩)

/-- **A line behind an unterminated one is no line of its own.** -/
theorem length_textLines_unterminated {file line : Bytes} (h : ¬ EndsLine file)
    (hline : Unbroken line) :
    (textLines (file ++ (line ++ [LF]))).length = (textLines file).length := by
  induction file using textLines.induct with
  | case1 => exact absurd (.inl rfl) h
  | case2 bs ih =>
      have hne : bs ≠ [] := by
        rintro rfl
        exact h (.inr ⟨[], .inl rfl⟩)
      rw [List.cons_append, textLines_LF, textLines_LF, List.length_cons, List.length_cons,
        ih (not_endsLine_cons h hne)]
  | case3 hne => exact absurd (.inr ⟨[], .inr rfl⟩) h
  | case4 bs hne ih =>
      have hbs : bs ≠ [] := by
        rintro rfl
        exact h (.inr ⟨[CR], .inl rfl⟩)
      simp only [List.cons_append, textLines, if_neg hne, if_true, List.length_cons]
      rw [ih (not_endsLine_cons (not_endsLine_cons h (List.cons_ne_nil _ _)) hbs)]
  | case5 c bs hne hc ih =>
      have := ih (not_endsLine_cons h (List.cons_ne_nil _ _))
      rw [List.cons_append] at this
      simp only [List.cons_append, textLines, if_neg hne, if_true, if_neg hc, List.length_cons, this]
  | case6 b bs hLF hCR ih =>
      rw [List.cons_append, textLines_cons hLF hCR, textLines_cons hLF hCR]
      by_cases hbs : bs = []
      · subst hbs
        rw [List.nil_append, textLines_line hline]
        rfl
      · rw [length_consLine (textLines_ne_nil (List.append_ne_nil_of_left_ne_nil hbs _)),
          length_consLine (textLines_ne_nil hbs), ih (not_endsLine_cons h hbs)]

variable [Interpreter]

/-- A stored entry is a line of its own behind a terminated one. -/
theorem textLines_append_storedBytes {file : Bytes} (hfile : EndsLine file) {e : Entry}
    (he : Storable e) :
    textLines (file ++ (storedBytes e ++ [LF])) = textLines file ++ [storedBytes e ++ [LF]] := by
  rw [textLines_append hfile (storedLine_ne_LF e [LF]), textLines_storedBytes he]

variable [Hashlib]

/-! ## One append -/

/-- An append that returns an entry has written its line. -/
structure Wrote (config : LogConfig) (call : Call) (file after : Bytes) (e : Entry) : Prop where
  storable : Storable e
  payload : ∃ payload, canonicalPayload config.redactor call.payload = .ok payload ∧
    e.payload = some payload
  payloadType : e.header.payloadType = call.payloadType
  written : after = file ++ (storedBytes e ++ [LF])

omit [Interpreter] in
theorem Draft.payloadType_of_build {d : Draft} {seq : ℤ} {prev : PyStr} {e : Entry}
    (h : d.build seq prev = .ok e) : e.header.payloadType = d.payloadType := by
  obtain ⟨entryHash, -, hentry⟩ := bind_eq_ok_iff.mp h
  obtain rfl := Except.ok.inj hentry
  rfl

omit [Hashlib] in
theorem draft_eq_ok {config : LogConfig} {call : Call} {d : Draft} (h : draft config call = .ok d) :
    canonicalPayload config.redactor call.payload = .ok d.payloadBytes ∧
      d.payloadType = call.payloadType := by
  unfold draft at h
  split at h
  · cases h
  obtain ⟨payloadBytes, hpayload, h⟩ := bind_eq_ok_iff.mp h
  obtain ⟨ts, -, h⟩ := bind_eq_ok_iff.mp h
  obtain rfl := Except.ok.inj h
  exact ⟨hpayload, rfl⟩

theorem afterAppend_cases (config : LogConfig) (call : Call) (entry : Entry) (log : AuditLog) :
    (∃ e, (afterAppend config call entry log).1 = .error (.other e)) ∨
      (config.hasAttestor = true ∧
        ∃ cause, (afterAppend config call entry log).1 = .error (.attestationFailure cause)) ∨
      (afterAppend config call entry log).1 = .ok entry := by
  unfold afterAppend
  split
  · exact .inl ⟨_, rfl⟩
  · dsimp only
    split
    case h_1 cause hcause =>
        cases hattestor : config.hasAttestor with
        | false => rw [hattestor] at hcause; cases hcause
        | true => exact .inr (.inl ⟨rfl, cause, rfl⟩)
    case h_2 => exact .inr (.inr rfl)

/-- What an append without an attestor comes to. -/
theorem append_cases_plain {config : LogConfig} (hconfig : config.hasAttestor = false) (call : Call)
    (log : AuditLog) :
    (∃ e, (log.append config call).1 = .error (.other e)) ∨
      ∃ e, (log.append config call).1 = .ok e ∧ log.opensTrail config call = true ∧
        Wrote config call log.store.file (log.append config call).2.store.file e := by
  unfold AuditLog.opensTrail AuditLog.append
  cases hdraft : draft config call with
  | error e => exact .inl ⟨e, rfl⟩
  | ok d =>
      dsimp only
      rcases hprepare : prepare config.integrityScanEvery call.io d.build log.store with
        ⟨result, s'⟩
      have hfile : s'.file = log.store.file := by
        have := @file_prepare _ config.integrityScanEvery call.io d.build log.store
        rwa [hprepare] at this
      cases result with
      | error err => exact .inl ⟨err, by simp only [JSONLBackend.append, hprepare]⟩
      | ok written =>
          obtain ⟨entry, bytes⟩ := written
          obtain ⟨tail, -, hbuild, -, hbytes⟩ := prepare_ok hprepare
          have hstorable := Draft.storable_of_build hbuild
          obtain rfl : storedBytes entry ++ [LF] = bytes :=
            Option.some.inj ((encodeUtf8_storedText hstorable).symm.trans hbytes)
          cases hwrite : call.io.write with
          | some fault =>
              obtain ⟨n, err⟩ := fault
              exact .inl ⟨err, by simp only [JSONLBackend.append, hprepare, hwrite]⟩
          | none =>
              cases hrelease : call.io.release with
              | some err =>
                  exact .inl ⟨err, by simp only [JSONLBackend.append, hprepare, hwrite, hrelease]⟩
              | none =>
                  simp only [JSONLBackend.append, hprepare, hwrite, hrelease, store_afterAppend,
                    hfile]
                  refine (afterAppend_cases config call entry _).imp id fun h => ?_
                  rcases h with ⟨hattestor, -⟩ | hok
                  · rw [hconfig] at hattestor
                    cases hattestor
                  · obtain ⟨hpayload, htype⟩ := draft_eq_ok hdraft
                    obtain ⟨-, -, -, hentry, -, -⟩ := Draft.build_eq_ok hbuild
                    exact ⟨entry, hok, rfl, hstorable, ⟨d.payloadBytes, hpayload, hentry⟩,
                      (Draft.payloadType_of_build hbuild).trans htype, rfl⟩

/-- What such an append does to the directory. -/
theorem appendTo_cases_plain {config : LogConfig} (hconfig : config.hasAttestor = false)
    (dir : Directory) (name : PyStr) (call : Call) (log : AuditLog) :
    (∃ e, (appendTo dir name config call log).2.1 = .error (.other e)) ∨
      ∃ e after, (appendTo dir name config call log).2.1 = .ok e ∧
        (appendTo dir name config call log).1 = dir.insert name after ∧
        Wrote config call (fileOf dir name) after e := by
  rcases append_cases_plain hconfig call
    { log with store := { log.store with file := fileOf dir name } } with ⟨e, he⟩ |
    ⟨e, he, hopen, hwrote⟩
  · exact .inl ⟨e, he⟩
  · exact .inr ⟨e, _, he, by rw [appendTo, hopen]; rfl, hwrote⟩

/-! ## Opening a trail -/

omit [Interpreter] [Hashlib] in
/-- The log of a hook has no attestor. -/
theorem hookConfig_plain (env : HookEnv) : (hookConfig env).hasAttestor = false := rfl

/-- What opening a trail does to its directory: nothing, or it starts the segment with the
binding of a rotation. -/
inductive OpensAt (name : PyStr) (before : Directory) : Directory → Prop where
  | found : OpensAt name before before
  | rotated {b : Entry} (hnew : fileOf before name = []) (hb : Storable b)
      (htype : b.header.payloadType = rotationPayloadType) :
      OpensAt name before (before.insert name (storedBytes b ++ [LF]))

omit [Hashlib] in
/-- The name a rotation settles is none of the directory. -/
theorem settleWith_sealing {io : OpenIo} {slug base successor : PyStr} {dir : Directory}
    {binding : HandoffBinding} (h : settleWith io slug dir base = .ok (.sealing successor binding)) :
    successor ∉ dir := by
  obtain ⟨-, -, h⟩ := bind_eq_ok_iff.mp h
  obtain ⟨active, -, h⟩ := bind_eq_ok_iff.mp h
  split at h
  · cases h
  obtain ⟨-, -, h⟩ := bind_eq_ok_iff.mp h
  split at h
  · cases h
  split at h
  · split at h <;> cases h
  obtain ⟨-, -, h⟩ := bind_eq_ok_iff.mp h
  obtain ⟨successor, hname, h⟩ := bind_eq_ok_iff.mp h
  obtain ⟨binding, -, h⟩ := bind_eq_ok_iff.mp h
  obtain ⟨rfl, -⟩ := Opening.sealing.inj (Except.ok.inj h)
  obtain ⟨hlt, rfl⟩ := segmentName_eq_ok hname
  exact fun hmem => lt_irrefl _ (lt_nextOrdinal (mem_ordinals.mpr ⟨hlt, hmem⟩))

theorem openSegmented_ok {env : HookEnv} {io : OpenIo} {slug base name : PyStr}
    {dir dir' : Directory} (h : openSegmented env io slug dir base = (.ok name, dir')) :
    OpensAt name dir dir' := by
  unfold openSegmented at h
  split at h
  · cases h
  · obtain ⟨-, rfl⟩ := Prod.mk.inj h
    exact .found
  split at h
  · cases h
  · obtain ⟨-, rfl⟩ := Prod.mk.inj h
    exact .found
  next successor binding hsettle =>
    obtain ⟨-, -, hsettle⟩ := bind_eq_ok_iff.mp hsettle
    split at h
    · cases h
    rcases appendTo_cases_plain (hookConfig_plain env) dir successor
      (bindingCall binding io.bind) (.open (fileOf dir successor)) with ⟨e, he⟩ |
      ⟨b, after, hb, hdir, hwrote⟩
    · split at h
      · cases h
      · cases h
      next hout =>
        rw [hout] at he
        cases he
    · split at h
      · cases h
      · cases h
      next hout =>
        rw [hout] at hdir
        obtain ⟨hname, rfl⟩ := Prod.mk.inj h
        have hnew : fileOf dir successor = [] := by
          rw [fileOf, AList.lookup_eq_none.mpr (settleWith_sealing hsettle), Option.getD_none]
        obtain rfl : successor = name := by
          cases hunlock : orFail io.unlock with
          | error e => rw [hunlock] at hname; cases hname
          | ok u => rw [hunlock] at hname; exact Except.ok.inj hname
        have hafter := hwrote.written
        rw [hnew, List.nil_append] at hafter
        dsimp only at hdir
        rw [hdir, hafter]
        exact .rotated hnew hwrote.storable hwrote.payloadType

/-- Opening a target touches one directory. -/
theorem openTrail_ok {env : HookEnv} {io : HookIo} {fs fs' : PosixPath → Directory}
    {target directory : PosixPath} {name : PyStr}
    (h : openTrail env io fs target = (.ok (directory, name), fs')) :
    OpensAt name (fs directory) (fs' directory) ∧ ∀ other ≠ directory, fs' other = fs other := by
  unfold openTrail at h
  split at h
  · cases h
  next path hpath =>
    rcases hopen : openSegmented env io.opening path.parent.name (fs path.parent) path.name with
      ⟨result, dir⟩
    rw [hopen] at h
    cases result with
    | error e => cases h
    | ok active =>
        obtain ⟨hresult, rfl⟩ := Prod.mk.inj h
        obtain ⟨rfl, rfl⟩ := Prod.mk.inj (Except.ok.inj hresult)
        refine ⟨?_, fun other hother => Function.update_of_ne hother _ _⟩
        rw [Function.update_self]
        exact openSegmented_ok hopen

/-! ## Resolving the target -/

section

omit [Interpreter]

/-- The routing finds the host's waxseal home, and can look for the trail of the project. -/
def Routable (host : HookHost) (env : HookEnv) (io : HookIo) (event : HookEvent) : Prop :=
  (∃ root, host.root env = .ok root) ∧ (host.projectKey event ≠ none → io.existsFault = none)

/-- `WAXSEAL_TRAIL` names the target by itself, or the routing does. -/
def Resolvable (host : HookHost) (env : HookEnv) (io : HookIo) (event : HookEvent) : Prop :=
  (∃ value, env.envTrail = some value ∧ value.head? ≠ some (.ofChar '~')) ∨
    Routable host env io event

theorem isOk_routedTrail {io : HookIo} {fs : PosixPath → Directory} {root : PosixPath}
    {cwd : Option PyStr} :
    (∃ out, routedTrail io fs root cwd = .ok out) ↔ (cwd ≠ none → io.existsFault = none) := by
  cases cwd with
  | none => exact ⟨fun _ h => absurd rfl h, fun _ => ⟨_, rfl⟩⟩
  | some cwd =>
      cases hexists : io.existsFault with
      | none => exact ⟨fun _ _ => rfl, fun _ => by rw [routedTrail, hexists]; exact ⟨_, rfl⟩⟩
      | some e =>
          refine ⟨fun ⟨out, h⟩ => ?_, fun h => ?_⟩
          · rw [routedTrail, hexists] at h
            cases h
          · cases h (Option.some_ne_none cwd)

theorem isOk_routing {host : HookHost} {env : HookEnv} {io : HookIo}
    {fs : PosixPath → Directory} {event : HookEvent} :
    (∃ out, (host.root env >>= fun root => routedTrail io fs root (host.projectKey event)) = .ok out)
      ↔ Routable host env io event := by
  constructor
  · rintro ⟨out, h⟩
    obtain ⟨root, hroot, h⟩ := bind_eq_ok_iff.mp h
    exact ⟨⟨root, hroot⟩, isOk_routedTrail.mp ⟨out, h⟩⟩
  · rintro ⟨⟨root, hroot⟩, h⟩
    obtain ⟨out, hout⟩ := (@isOk_routedTrail _ _ fs root _).mpr h
    exact ⟨out, bind_eq_ok_iff.mpr ⟨root, hroot, hout⟩⟩

omit [Hashlib] in
theorem head?_of_isRemote {value : PyStr} (h : HookHost.isRemote value = true) :
    value.head? ≠ some (.ofChar '~') := by
  have hhead : value.head? = some (.ofChar 'h') := by
    rcases Bool.or_eq_true_iff.mp h with h | h <;>
    · obtain ⟨rest, rfl⟩ := List.isPrefixOf_iff_prefix.mp h
      rfl
  rw [hhead]
  decide

/-- **Which events have a target.** -/
theorem isOk_resolveTarget {host : HookHost} {env : HookEnv} {io : HookIo}
    {fs : PosixPath → Directory} {event : HookEvent} :
    (∃ out, host.resolveTarget env io fs event = .ok out) ↔ Resolvable host env io event := by
  unfold HookHost.resolveTarget HookHost.trailPath resolveTrail Resolvable
  rw [← @isOk_routing _ host env io fs event]
  cases henv : env.envTrail with
  | none =>
      simp only [Option.filter_none, reduceCtorEq, false_and, exists_false, false_or]
      exact isOk_map
  | some value =>
      rw [Option.filter_some]
      split
      case h_1 url hurl =>
          split at hurl
          case isTrue hremote =>
              have hhead := head?_of_isRemote (Bool.and_eq_true_iff.mp hremote).2
              exact ⟨fun _ => .inl ⟨value, rfl, hhead⟩, fun _ => ⟨_, rfl⟩⟩
          case isFalse => cases hurl
      case h_2 =>
          refine isOk_map.trans ?_
          by_cases htilde : value.head? = some (.ofChar '~')
          · dsimp only
            rw [if_pos htilde]
            constructor
            · rintro ⟨out, h⟩
              obtain ⟨out, hout, -⟩ := bind_eq_ok_iff.mp h
              exact .inr ⟨out, hout⟩
            · rintro (⟨other, hvalue, hhead⟩ | ⟨out, hout⟩)
              · exact absurd (Option.some.inj hvalue ▸ htilde) hhead
              · exact ⟨_, bind_eq_ok_iff.mpr ⟨out, hout, rfl⟩⟩
          · dsimp only
            rw [if_neg htilde]
            exact ⟨fun _ => .inl ⟨value, rfl, htilde⟩, fun _ => ⟨_, rfl⟩⟩

theorem routing_lines {host : HookHost} {env : HookEnv} {io : HookIo}
    {fs : PosixPath → Directory} {event : HookEvent} {out : PosixPath × List HookLine}
    (h : (host.root env >>= fun root => routedTrail io fs root (host.projectKey event)) = .ok out) :
    ∀ line ∈ out.2, line.isLoss = false := by
  obtain ⟨root, -, h⟩ := bind_eq_ok_iff.mp h
  unfold routedTrail at h
  split at h
  · obtain rfl := Except.ok.inj h
    exact List.forall_mem_singleton.mpr rfl
  · obtain ⟨-, -, h⟩ := bind_eq_ok_iff.mp h
    obtain rfl := Except.ok.inj h
    dsimp only
    split
    · exact fun line hline => absurd hline List.not_mem_nil
    · exact List.forall_mem_singleton.mpr rfl

/-- Resolving the target says nothing of a loss. -/
theorem resolveTarget_lines {host : HookHost} {env : HookEnv} {io : HookIo}
    {fs : PosixPath → Directory} {event : HookEvent} {target : HookTarget} {lines : List HookLine}
    (h : host.resolveTarget env io fs event = .ok (target, lines)) :
    ∀ line ∈ lines, line.isLoss = false := by
  unfold HookHost.resolveTarget at h
  split at h
  · obtain ⟨-, rfl⟩ := Prod.mk.inj (Except.ok.inj h)
    exact fun line hline => absurd hline List.not_mem_nil
  · obtain ⟨out, hout, hlines⟩ := map_eq_ok_iff.mp h
    obtain ⟨-, rfl⟩ := Prod.mk.inj hlines
    unfold HookHost.trailPath resolveTrail at hout
    split at hout
    · exact routing_lines hout
    · split at hout
      · obtain ⟨fallback, hfallback, hout⟩ := bind_eq_ok_iff.mp hout
        obtain rfl := Except.ok.inj hout
        rw [List.forall_mem_append]
        exact ⟨routing_lines hfallback, List.forall_mem_singleton.mpr rfl⟩
      · obtain rfl := Except.ok.inj hout
        exact fun line hline => absurd hline List.not_mem_nil

end

/-! ## The promise -/

/-- The event is one entry of one segment: the segment has the lines it had, the binding of a
rotation where it is new, and the entry.  No other file of the directory changes. -/
def StoredOnce (host : HookHost) (env : HookEnv) (payload : Json) (before after : Directory) : Prop :=
  ∃ name e opening, Storable e ∧ e.header.payloadType = host.payloadType ∧
    (∃ clean, env.redact payload = .ok clean ∧ e.payload = some (canonicalJson clean)) ∧
    (opening = [] ∨ ∃ b, Storable b ∧ b.header.payloadType = rotationPayloadType ∧
      opening = [storedBytes b ++ [LF]]) ∧
    textLines (fileOf after name)
      = textLines (fileOf before name) ++ (opening ++ [storedBytes e ++ [LF]]) ∧
    ∀ other ≠ name, after.lookup other = before.lookup other

/-- The event is one entry: of the chain server, or of a segment in one directory. -/
def HookRun.Stored (host : HookHost) (env : HookEnv) (event : HookEvent)
    (fs : PosixPath → Directory) (out : HookRun) : Prop :=
  (out.remote = 1 ∧ out.files = fs) ∨
    (out.remote = 0 ∧ ∃ payload directory, host.buildPayload env event = .ok payload ∧
      StoredOnce host env payload (fs directory) (out.files directory) ∧
      ∀ other ≠ directory, out.files other = fs other)

/-- The event is stored, or stderr says that it is lost. -/
def HookRun.Accounts (host : HookHost) (env : HookEnv) (event : HookEvent)
    (fs : PosixPath → Directory) (out : HookRun) : Prop :=
  out.Stored host env event fs ∨ ∃ line ∈ out.stderr, line.isLoss = true

/-- The promise of a hook. -/
def Keeps (host : HookHost) (env : HookEnv) (io : HookIo) (fs : PosixPath → Directory) : Prop :=
  (host.run env io fs).exit = .ok 0 ∧ (host.run env io fs).stdout = [] ∧
    ∀ event, HookHost.readEvent io = .ok event → (host.run env io fs).Accounts host env event fs

/-- What is asked of a target.  Of a chain server that opens: an event that is shallow.  Of a
file that opens: a shallow event, and no append behind a line without an end.  Of a file
that does not: a place for its `.drops` file. -/
def Reachable (host : HookHost) (env : HookEnv) (io : HookIo) (fs : PosixPath → Directory)
    (event : HookEvent) : HookTarget → Prop
  | .remote _ => io.remoteOpen = none → Shallow host env event
  | .file target =>
      match openTrail env io fs target with
      | (.error _, fs) => recordDrop env io fs target = .ok ()
      | (.ok (directory, name), fs) => Shallow host env event ∧
          ∀ payload, host.buildPayload env event = .ok payload →
            (tryAppendTo host env io.append (fs directory) name payload).1 = true →
            EndsLine (fileOf (fs directory) name)

/-- Nothing fails outside the guard of the hook. -/
def Unhindered (host : HookHost) (env : HookEnv) (io : HookIo) (fs : PosixPath → Directory) : Prop :=
  ∀ event, HookHost.readEvent io = .ok event → Resolvable host env io event ∧
    ∀ target lines, host.resolveTarget env io fs event = .ok (target, lines) →
      Reachable host env io fs event target

section

variable {host : HookHost} {env : HookEnv} {io : HookIo} {fs : PosixPath → Directory}
  {event : HookEvent} {lines : List HookLine}

omit [Hashlib] in
/-- The lines of the files a run leaves tell an event that was stored nowhere. -/
theorem not_stored {out : HookRun} (hremote : out.remote = 0)
    (h : ∀ directory name, (textLines (fileOf (out.files directory) name)).length
      ≤ (textLines (fileOf (fs directory) name)).length) : ¬ out.Stored host env event fs := by
  rintro (⟨hone, -⟩ | ⟨-, payload, directory, -, ⟨name, e, opening, -, -, -, -, hlines, -⟩, -⟩)
  · rw [hremote] at hone
    cases hone
  · have hle := h directory name
    rw [hlines, List.length_append, List.length_append, List.length_singleton] at hle
    omega

theorem runRemote_keeps (url : PyStr) :
    ((host.runRemote env io fs event lines).exit = .ok 0 ∧
      (host.runRemote env io fs event lines).stdout = [] ∧
      (host.runRemote env io fs event lines).Accounts host env event fs) ↔
    Reachable host env io fs event (.remote url) := by
  unfold HookHost.runRemote Reachable
  cases hopen : io.remoteOpen with
  | some e =>
      refine ⟨fun _ h => absurd h (Option.some_ne_none e),
        fun _ => ⟨rfl, rfl, .inr ⟨.cannotOpen e, ?_, rfl⟩⟩⟩
      exact List.mem_append_right _ (List.mem_singleton_self _)
  | none =>
      rw [← isOk_buildPayload]
      cases hpayload : host.buildPayload env event with
      | error e =>
          constructor
          · rintro ⟨hexit, -⟩
            cases hexit
          · intro h
            obtain ⟨payload, hpayload⟩ := h rfl
            cases hpayload
      | ok payload =>
          refine ⟨fun _ _ => ⟨payload, rfl⟩, fun _ => ⟨rfl, rfl, ?_⟩⟩
          cases happend : io.remoteAppend with
          | stored => exact .inl (.inl ⟨rfl, rfl⟩)
          | failed | storedThenFailed =>
              exact .inr ⟨.droppedWrite _, List.mem_append_right _ (List.mem_singleton_self _), rfl⟩

omit [Hashlib] in
/-- An entry behind the lines its segment has, or behind the binding of its rotation. -/
theorem storedOnce_of_wrote {payload : Json} {call : Call} {name : PyStr} {e : Entry}
    {before opened : Directory} {file : Bytes} (hopen : OpensAt name before opened)
    (hends : EndsLine (fileOf opened name))
    (hwrote : Wrote (hookConfig env)
      { call with payload := .dict payload, payloadType := host.payloadType }
      (fileOf opened name) file e) :
    StoredOnce host env payload before (opened.insert name file) := by
  obtain ⟨bytes, hbytes, hpayload⟩ := hwrote.payload
  have hclean : ∃ clean, env.redact payload = .ok clean ∧ e.payload = some (canonicalJson clean) := by
    obtain ⟨clean, hredact, hclean⟩ := map_eq_ok_iff.mp hbytes
    exact ⟨clean, hredact, by rw [hpayload, hclean]⟩
  have hlines := textLines_append_storedBytes hends hwrote.storable
  rw [← hwrote.written] at hlines
  cases hopen with
  | found =>
      refine ⟨name, e, [], hwrote.storable, hwrote.payloadType, hclean, .inl rfl, ?_, ?_⟩
      · rw [fileOf_insert, hlines, List.nil_append]
      · exact fun other hother => AList.lookup_insert_ne hother
  | rotated hnew hb htype =>
      refine ⟨name, e, _, hwrote.storable, hwrote.payloadType, hclean, .inr ⟨_, hb, htype, rfl⟩,
        ?_, ?_⟩
      · rw [fileOf_insert, hlines, fileOf_insert, textLines_storedBytes hb, hnew, textLines,
          List.nil_append]
      · intro other hother
        rw [AList.lookup_insert_ne hother, AList.lookup_insert_ne hother]

omit [Hashlib] in
/-- A segment that ends in the middle of a line is one the hook found. -/
theorem OpensAt.eq_of_unterminated {name : PyStr} {before opened : Directory}
    (h : OpensAt name before opened) (hends : ¬ EndsLine (fileOf opened name)) : opened = before := by
  cases h with
  | found => rfl
  | rotated hnew hb htype =>
      rw [fileOf_insert] at hends
      exact absurd (.inr ⟨_, .inl rfl⟩) hends

/-- What a `try_append` that returned `True` has written. -/
theorem tryAppendTo_true {call : Call} {dir dir' : Directory} {name : PyStr} {payload : Json}
    (h : tryAppendTo host env call dir name payload = (true, dir')) :
    ∃ e file, dir' = dir.insert name file ∧ Wrote (hookConfig env)
      { call with payload := .dict payload, payloadType := host.payloadType }
      (fileOf dir name) file e := by
  unfold tryAppendTo at h
  rcases appendTo_cases_plain (hookConfig_plain env) dir name
    { call with payload := .dict payload, payloadType := host.payloadType }
    (.open (fileOf dir name)) with ⟨err, herr⟩ | ⟨e, file, he, hdir, hwrote⟩
  · split at h
    next hout => rw [hout] at herr; cases herr
    next hout => rw [hout] at herr; cases herr
    next hout => cases h
  · split at h
    next hout =>
      rw [hout] at hdir
      exact ⟨e, file, (Prod.mk.inj h).2 ▸ hdir, hwrote⟩
    next hout => rw [hout] at he; cases he
    next hout => rw [hout] at he; cases he

theorem runLocal_keeps (hlines : ∀ line ∈ lines, line.isLoss = false) (target : PosixPath) :
    ((host.runLocal env io fs event target lines).exit = .ok 0 ∧
      (host.runLocal env io fs event target lines).stdout = [] ∧
      (host.runLocal env io fs event target lines).Accounts host env event fs) ↔
    Reachable host env io fs event (.file target) := by
  unfold HookHost.runLocal Reachable
  dsimp only
  rcases hopen : openTrail env io fs target with ⟨result, opened⟩
  cases result with
  | error e =>
      dsimp only
      cases hdrop : recordDrop env io opened target with
      | error e' =>
          constructor
          · rintro ⟨hexit, -⟩
            cases hexit
          · intro h
            cases h
      | ok u =>
          refine ⟨fun _ => rfl, fun _ => ⟨rfl, rfl, .inr ⟨.cannotOpen e, ?_, rfl⟩⟩⟩
          exact List.mem_append_right _ (List.mem_singleton_self _)
  | ok found =>
      obtain ⟨directory, name⟩ := found
      dsimp only
      obtain ⟨hopens, hothers⟩ := openTrail_ok hopen
      rw [← isOk_buildPayload]
      cases hpayload : host.buildPayload env event with
      | error e =>
          constructor
          · rintro ⟨hexit, -⟩
            cases hexit
          · rintro ⟨⟨payload, hpayload⟩, -⟩
            cases hpayload
      | ok payload =>
          dsimp only
          rcases happend : tryAppendTo host env io.append (opened directory) name payload with
            ⟨returned, dir⟩
          cases returned with
          | false =>
              refine ⟨fun _ => ⟨⟨payload, rfl⟩, ?_⟩, fun _ => ⟨rfl, rfl, .inr ?_⟩⟩
              · intro other hother htrue
                obtain rfl := Except.ok.inj hother
                rw [happend] at htrue
                cases htrue
              · exact ⟨_, List.mem_append_right _ (List.mem_singleton_self _), rfl⟩
          | true =>
              obtain ⟨e, file, hdir, hwrote⟩ := tryAppendTo_true happend
              dsimp only
              constructor
              · rintro ⟨-, -, hstored | ⟨line, hline, hloss⟩⟩
                · refine ⟨⟨payload, rfl⟩, fun _ _ _ => by_contra fun hends => ?_⟩
                  refine absurd hstored (not_stored rfl fun d n => ?_)
                  dsimp only
                  by_cases hd : d = directory
                  · subst hd
                    rw [Function.update_self, hdir, hopens.eq_of_unterminated hends]
                    by_cases hn : n = name
                    · subst hn
                      rw [fileOf_insert, hwrote.written, length_textLines_unterminated hends
                        (unbroken_storedBytes hwrote.storable), hopens.eq_of_unterminated hends]
                    · rw [fileOf_insert_ne _ hn]
                  · rw [Function.update_of_ne hd, hothers d hd]
                · rw [hlines line hline] at hloss
                  cases hloss
              · rintro ⟨-, hends⟩
                have hends := hends payload rfl (by rw [happend])
                refine ⟨rfl, rfl, .inl (.inr ⟨rfl, payload, directory, hpayload, ?_, fun d hd => ?_⟩)⟩
                · dsimp only
                  rw [Function.update_self, hdir]
                  exact storedOnce_of_wrote hopens hends hwrote
                · dsimp only
                  rw [Function.update_of_ne hd, hothers d hd]

/-- **The hook keeps its promise exactly when nothing fails outside its guard.** -/
theorem hook_keeps_iff (host : HookHost) (env : HookEnv) (io : HookIo)
    (fs : PosixPath → Directory) : Keeps host env io fs ↔ Unhindered host env io fs := by
  unfold Keeps Unhindered HookHost.run
  cases hevent : HookHost.readEvent io with
  | error e =>
      exact ⟨fun _ => nofun, fun _ => ⟨rfl, rfl, nofun⟩⟩
  | ok event =>
      dsimp only
      have hevery : ∀ {P : HookEvent → Prop},
          (∀ other, (Except.ok event : Except PyErr HookEvent) = .ok other → P other) ↔ P event :=
        ⟨fun h => h event rfl, fun h other hother => Except.ok.inj hother ▸ h⟩
      rw [hevery, hevery, ← @isOk_resolveTarget _ host env io fs event]
      cases hresolve : host.resolveTarget env io fs event with
      | error e =>
          constructor
          · rintro ⟨hexit, -⟩
            cases hexit
          · rintro ⟨⟨out, hout⟩, -⟩
            cases hout
      | ok out =>
          obtain ⟨target, lines⟩ := out
          have hlines := resolveTarget_lines hresolve
          have hreach : ((∃ out, (Except.ok (target, lines) : Except PyErr _) = .ok out) ∧
              ∀ target' lines', (Except.ok (target, lines) : Except PyErr _) = .ok (target', lines') →
                Reachable host env io fs event target') ↔ Reachable host env io fs event target := by
            refine ⟨fun h => h.2 target lines rfl, fun h => ⟨⟨_, rfl⟩, fun target' lines' heq => ?_⟩⟩
            obtain ⟨rfl, -⟩ := Prod.mk.inj (Except.ok.inj heq)
            exact h
          rw [hreach]
          cases target with
          | remote url => exact runRemote_keeps url
          | file target => exact runLocal_keeps hlines target

end

/-! ## A directory that cannot be listed -/

/-- A hook whose `WAXSEAL_TRAIL` is set, and that changes nothing it records. -/
def plainEnv : HookEnv where
  trailVar := some (str "/t/trail.jsonl")
  homeVar := some (str "/home/u")
  codexHomeVar := none
  pathHome := .ok (str "/home/u")
  expandUser := .ok
  redactText := id
  redact := .ok
  depth := 900

/-- One event, and a directory nobody may list. -/
def deniedListing : HookIo where
  stdin := .ok (str "\x7b\x7d")
  existsFault := none
  opening := {
    archive := none
    look := some .osError
    statFails := false
    lock := none
    lookAgain := none
    statAgainFails := false
    readTail := none
    lookNext := none
    openLog := none
    bind := plainCall
    unlock := none }
  recoverLook := some .osError
  append := plainCall
  remoteOpen := none
  remoteAppend := .stored

omit [Interpreter] [Hashlib] in
/-- Handling a trail that cannot be opened lists its directory once more, outside the guard: the
three hooks end with an exception. -/
theorem denied_listing_raises :
    letI := Sha256.hashlib
    letI := Interpreter.plain
    ¬ Keeps claudeCode plainEnv deniedListing (fun _ => ∅) ∧
      ¬ Keeps codex plainEnv deniedListing (fun _ => ∅) ∧
      ¬ Keeps cursor plainEnv deniedListing fun _ => ∅ := by
  let _ := Sha256.hashlib
  let _ := Interpreter.plain
  have hraised : ∀ host ∈ [claudeCode, codex, cursor],
      (host.run plainEnv deniedListing fun _ => ∅).exit.toOption = none := by
    decide +kernel
  have hloses : ∀ host ∈ [claudeCode, codex, cursor],
      ¬ Keeps host plainEnv deniedListing fun _ => ∅ := by
    intro host hhost hkeeps
    have hnone := hraised host hhost
    rw [hkeeps.1] at hnone
    cases hnone
  exact ⟨hloses claudeCode (by simp), hloses codex (by simp), hloses cursor (by simp)⟩

end Waxseal
