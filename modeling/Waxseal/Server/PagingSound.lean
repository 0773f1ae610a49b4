import Waxseal.Server.Paging

/-!
# Paging loses nothing

What a client has yielded at any time is the front of one segment (`Within`); a page it still
waits for starts where that front ends (`PageSound`).  Appends and rotations only add rows
(`Grows`), so they keep this, and the last page is read when the segment has no more rows
than it serves.
-/

namespace Waxseal

open Json

variable [Interpreter]

/-! ## A page -/

/-- A stored line, as the loop takes it apart. -/
theorem line_storedBytes {e : Entry} (h : Storable e) :
    decodeUtf8 (storedBytes e ++ [LF]) = some (storedText e ++ [0x0A]) ∧
      isBlank (storedText e ++ [0x0A]) = false ∧
      loads (storedText e ++ [0x0A]) = .ok (.obj (storedMembers e)) := by
  have hopen : OpensObject (storedText e ++ [0x0A]) := (opensObject_storedText e).append _
  refine ⟨decodeUtf8_encode (encodeUtf8_storedText h), isBlank_opensObject hopen, ?_⟩
  rw [loads_eq_decode (.inr hopen), storedText, decode_dumps_append (writable_storedMembers h),
    if_pos (show skipWs [0x0A] = [] from rfl)]

/-- The rows of a page. -/
def pageRows (limit start : ℕ) (rows : List Entry) : List Entry := (rows.drop start).take limit

/-- The loop over the lines of a trail. -/
theorem pageLoop_stored {limit start index : ℕ} {page : List Json} {rows : List Entry}
    (h : ∀ e ∈ rows, Storable e) (hpage : page.length ≤ limit) (hindex : page = [] ∨ start ≤ index) :
    pageLoop limit start index page (rows.map fun e => storedBytes e ++ [LF]) =
      .ok (page ++ (pageRows (limit - page.length) (start - index) rows).map
          (fun e => .obj (storedMembers e)),
        decide (limit - page.length < (rows.drop (start - index)).length)) := by
  induction rows generalizing index page with
  | nil => simp [pageLoop, pageRows]
  | cons e rows ih =>
      rw [List.forall_mem_cons] at h
      obtain ⟨hdecode, hblank, hloads⟩ := line_storedBytes h.1
      rw [List.map_cons, pageLoop, hdecode]
      simp only [hblank, Bool.false_eq_true, if_false, Nat.cast_le, hloads]
      by_cases hstart : start ≤ index
      · have hzero : start - index = 0 := Nat.sub_eq_zero_of_le hstart
        have hzero' : start - (index + 1) = 0 := by omega
        rw [if_pos hstart]
        by_cases hfull : page.length = limit
        · rw [if_pos hfull, hzero, hfull, Nat.sub_self]
          simp [pageRows]
        · have hroom : limit - page.length = (limit - (page.length + 1)) + 1 := by omega
          have hrest := @ih (index + 1) (page ++ [.obj (storedMembers e)]) h.2
            (by rw [List.length_append, List.length_singleton]; omega) (.inr (by omega))
          rw [List.length_append, List.length_singleton, hzero'] at hrest
          rw [if_neg hfull, hzero, hroom]
          refine hrest.trans ?_
          simp [pageRows]
      · obtain rfl : page = [] := hindex.resolve_right hstart
        have hskip : start - index = (start - (index + 1)) + 1 := by omega
        rw [if_neg hstart, ih h.2 hpage (.inl rfl), hskip]
        rfl

/-- The lines of a trail. -/
theorem textLines_trailBytes {rows : List Entry} (h : ∀ e ∈ rows, Storable e) :
    textLines (trailBytes rows) = rows.map fun e => storedBytes e ++ [LF] := by
  induction rows using List.reverseRecOn with
  | nil => rfl
  | append_singleton rows e ih =>
      rw [List.forall_mem_append, List.forall_mem_singleton] at h
      rw [trailBytes_append, trailBytes_singleton,
        textLines_append (endsLine_trailBytes rows) (storedLine_ne_LF e [LF]), ih h.1,
        textLines_storedBytes h.2, List.map_append, List.map_singleton]

section Page

variable {dir : Directory} {name : PyStr} {rows : List Entry}

/-- **A page of a segment.** -/
theorem pageOf_rows (size : PageSize) (h : Rows dir name rows) (start : ℕ) :
    pageOf size dir start name = .ok
      ((pageRows size.val start rows).map (fun e => .obj (storedMembers e)),
        if start + size.val < rows.length then
          some (encodeCursor (start + size.val : ℕ) (segmentIdentity name)) else none) := by
  have hloop := @pageLoop_stored _ size.val start 0 [] rows h.wellFormed.storable
    (Nat.zero_le _) (.inl rfl)
  rw [List.nil_append, List.length_nil, Nat.sub_zero, Nat.sub_zero] at hloop
  rw [pageOf, if_neg (not_not.mpr h.present), h.file,
    textLines_trailBytes h.wellFormed.storable]
  refine bind_eq_ok_iff.mpr ⟨_, hloop, ?_⟩
  have hmore : (size.val < (rows.drop start).length) ↔ start + size.val < rows.length := by
    rw [List.length_drop]
    omega
  by_cases hlt : start + size.val < rows.length
  · have hlength : (pageRows size.val start rows).length = size.val := by
      rw [pageRows, List.length_take, List.length_drop]
      omega
    simp only [hmore, hlt, decide_true, not_true_eq_false, if_false, List.length_map, hlength,
      if_true]
    rw [Nat.cast_add]
    rfl
  · simp only [hmore, hlt, decide_false, Bool.false_eq_true, not_false_iff, if_true, if_false]
    rfl

/-- There is no page of a segment that is not there. -/
theorem pageOf_notMem (size : PageSize) (h : name ∉ dir) (start : ℤ) :
    pageOf size dir start name = .ok ([], none) := by
  rw [pageOf, if_pos h]

end Page

/-! ## Names of segments -/

section Names

omit [Interpreter]

theorem segmentSuffix_suffix_segmentAt (k : ℕ) : segmentSuffix <:+ segmentAt k := by
  cases k with
  | zero => exact ⟨trailStem, trailStem_append_suffix⟩
  | succ n => exact segmentSuffix_suffix_segmentFile trailStem n

/-- The identity of a segment names it. -/
theorem segmentIdentity_append_suffix (k : ℕ) :
    segmentIdentity (segmentAt k) ++ segmentSuffix = segmentAt k := by
  obtain ⟨stem, hstem⟩ := segmentSuffix_suffix_segmentAt k
  rw [← hstem, segmentIdentity_append]

/-- Identities are made of characters that need no quoting. -/
theorem isUnreserved_segmentIdentity (k : ℕ) :
    (segmentIdentity (segmentAt k)).all isUnreserved = true := by
  cases k with
  | zero => decide
  | succ n =>
      rw [segmentAt, segmentFile_eq, segmentIdentity_append, List.all_append, Bool.and_eq_true]
      refine ⟨by decide, List.all_eq_true.mpr fun c hc => ?_⟩
      have := isDigit_iff.mp (isDigit_paddedOrdinal c hc)
      simp [isUnreserved, this]

theorem segmentIdentity_ne_nil (k : ℕ) : segmentIdentity (segmentAt k) ≠ [] := by
  cases k with
  | zero => decide
  | succ n =>
      rw [segmentAt, segmentFile_eq, segmentIdentity_append, List.append_assoc]
      exact List.append_ne_nil_of_left_ne_nil (by decide) _

/-- Neither do the cursors. -/
theorem isUnreserved_encodeCursor (i k : ℕ) :
    (encodeCursor i (segmentIdentity (segmentAt k))).all isUnreserved = true := by
  rw [encodeCursor, List.all_append, List.all_append, List.all_append,
    isUnreserved_segmentIdentity k]
  have hdigits : (strNat i).all isUnreserved = true := by
    refine List.all_eq_true.mpr fun c hc => ?_
    simp [isUnreserved, isDigit_of_mem_strNat hc]
  rw [show strInt (i : ℤ) = strNat i from rfl, hdigits]
  rfl

theorem noSurrogatePair_of_isUnreserved {s : PyStr} (h : s.all isUnreserved = true) :
    NoSurrogatePair s := by
  refine noSurrogatePair_of_isSurrogate fun c hc => ?_
  have hc := List.all_eq_true.mp h c hc
  have hlow : c.val < 0x80 := by
    simp only [isUnreserved, Bool.or_eq_true, Bool.and_eq_true, decide_eq_true_eq] at hc
    rcases hc with (((((h | h) | h) | rfl) | rfl) | rfl) | rfl
    · omega
    · omega
    · omega
    · decide
    · decide
    · decide
    · decide
  simp only [CodePoint.isSurrogate, Bool.and_eq_false_imp, decide_eq_true_eq,
    decide_eq_false_iff_not]
  omega

end Names

/-- A cursor says where to go on. -/
theorem encodeCursor_inj {i j : ℕ} {identity : PyStr} (h : identity ≠ [])
    (heq : encodeCursor i identity = encodeCursor j identity) : i = j := by
  have hi := decodeCursor_encodeCursor (fun _ => false) i h
  have hj := decodeCursor_encodeCursor (fun _ => false) j h
  rw [heq, hj] at hi
  have := (Prod.mk.inj (Except.ok.inj hi)).1
  omega

/-! ## A response -/

/-- The client reads the rows of a page. -/
theorem yieldAll_stored {yielded rows : List Entry} (h : ∀ e ∈ rows, Storable e) :
    yieldAll yielded (rows.map fun e => .obj (storedMembers e)) = (.ok (), yielded ++ rows) := by
  induction rows generalizing yielded with
  | nil => rw [List.append_nil]; rfl
  | cons e rows ih =>
      rw [List.forall_mem_cons] at h
      rw [List.map_cons, yieldAll, fromObj_storedMembers h.1.payload]
      simp only [ih h.2]
      rw [List.append_assoc, List.singleton_append]

/-- The body of a page can be written and read back. -/
theorem writable_pageBody {rows : List Entry} (h : ∀ e ∈ rows, Storable e)
    {nextCursor : Option PyStr} (hcursor : ∀ c, nextCursor = some c → NoSurrogatePair c) :
    Writable recursionLimit (pageBody (rows.map fun e => .obj (storedMembers e)) nextCursor) := by
  have hkeys : [str "entries", str "next_cursor"].Nodup := by decide
  have hrows : Writable 3 (.arr (rows.map fun e => .obj (storedMembers e))) := by
    intro item hitem
    obtain ⟨e, he, rfl⟩ := List.mem_map.mp hitem
    exact writable_two_storedMembers (h e he)
  refine @Writable.mono 4 _ _ ⟨hkeys, ?_⟩ (le_trans (by decide) Interpreter.recursionLimit_large)
  simp only [List.forall_mem_cons, List.not_mem_nil, false_imp_iff, implies_true, and_true]
  refine ⟨⟨noSurrogatePair_str rfl, hrows⟩, noSurrogatePair_str rfl, ?_⟩
  cases nextCursor with
  | none => trivial
  | some c => exact hcursor c rfl

/-- **The client takes a page**: it has the rows, and turns to the next cursor. -/
theorem receivePage_pageBody (wire : Wire) (cursor : Option PyStr) (pages : ℕ)
    (yielded : List Entry) {rows : List Entry} {nextCursor : Option PyStr} {body : Bytes}
    (h : ∀ e ∈ rows, Storable e) (hcursor : ∀ c, nextCursor = some c → NoSurrogatePair c)
    (hbody : wire.render (pageBody (rows.map fun e => .obj (storedMembers e)) nextCursor) =
      .ok body) :
    (nextCursor = none → receivePage cursor pages yielded (.ok body) = .done (yielded ++ rows)) ∧
      ∀ c, nextCursor = some c → some c ≠ cursor →
        receivePage cursor pages yielded (.ok body) =
          .asking (some c) (pages + 1) (yielded ++ rows) := by
  have hloads := wire.loads_render _ _ (writable_pageBody h hcursor) hbody
  have hparse : parseEntriesPage body =
      .ok [(str "entries", .arr (rows.map fun e => .obj (storedMembers e))),
        (str "next_cursor", (nextCursor.map Json.str).getD .null)] := by
    rw [parseEntriesPage, hloads]
    rfl
  rw [receivePage, hparse]
  have hitems : getItem (.obj [(str "entries", .arr (rows.map fun e => .obj (storedMembers e))),
        (str "next_cursor", (nextCursor.map Json.str).getD .null)]) (str "entries") >>= iterate =
      .ok (rows.map fun e => .obj (storedMembers e)) := rfl
  simp only [hitems, yieldAll_stored h]
  constructor
  · rintro rfl
    rfl
  · rintro c rfl hc
    exact if_neg hc

/-! ## The invariant -/

/-- A segment starts with these rows. -/
def StartsWith (dir : Directory) (k : ℕ) (yielded : List Entry) : Prop :=
  k ≤ 10 ^ segmentDigits ∧ ∃ rows, Rows dir (segmentAt k) rows ∧ yielded <+: rows

/-- Everything yielded is from the start of one segment. -/
def Within (dir : Directory) (yielded : List Entry) : Prop :=
  yielded = [] ∨ ∃ k, StartsWith dir k yielded

theorem StartsWith.grows {dir dir' : Directory} {k : ℕ} {yielded : List Entry}
    (h : StartsWith dir k yielded) (hgrows : Grows dir dir') : StartsWith dir' k yielded := by
  obtain ⟨hk, rows, hrows, hstart⟩ := h
  obtain ⟨more, hmore⟩ := hgrows k hk rows hrows
  exact ⟨hk, _, hmore, hstart.trans (List.prefix_append rows more)⟩

theorem Within.grows {dir dir' : Directory} {yielded : List Entry} (h : Within dir yielded)
    (hgrows : Grows dir dir') : Within dir' yielded :=
  h.imp_right fun ⟨k, hk⟩ => ⟨k, hk.grows hgrows⟩

/-- The cursor of the page after these rows of a segment. -/
def cursorAfter (k : ℕ) (yielded : List Entry) : PyStr :=
  encodeCursor yielded.length (segmentIdentity (segmentAt k))

/-- The client stands at the start, or behind rows it has of a segment. -/
def Stands (dir : Directory) (k : ℕ) (cursor : Option PyStr) (yielded : List Entry) : Prop :=
  cursor = none ∧ yielded = [] ∨ cursor = some (cursorAfter k yielded) ∧ StartsWith dir k yielded

theorem Stands.grows {dir dir' : Directory} {k : ℕ} {cursor : Option PyStr} {yielded : List Entry}
    (h : Stands dir k cursor yielded) (hgrows : Grows dir dir') : Stands dir' k cursor yielded :=
  h.imp_right fun ⟨hcursor, hstarts⟩ => ⟨hcursor, hstarts.grows hgrows⟩

theorem Stands.within {dir : Directory} {k : ℕ} {cursor : Option PyStr} {yielded : List Entry}
    (h : Stands dir k cursor yielded) : Within dir yielded := by
  rcases h with ⟨-, hnil⟩ | ⟨-, hstarts⟩
  · exact .inl hnil
  · exact .inr ⟨k, hstarts⟩

/-- The invariant: a page that is asked for starts where the rows that are there end. -/
def PageSound (dir : Directory) : PageState → Prop
  | .asking cursor _ yielded => ∃ k, Stands dir k cursor yielded
  | .waiting cursor _ yielded start name =>
      start = yielded.length ∧ ∃ k ≤ 10 ^ segmentDigits, name = segmentAt k ∧
        Stands dir k cursor yielded
  | .done yielded => Within dir yielded
  | .gaveUp why yielded => (why = .unanswered ∨ why = .tooManyPages) ∧ Within dir yielded

theorem PageSound.grows {dir dir' : Directory} {state : PageState} (h : PageSound dir state)
    (hgrows : Grows dir dir') : PageSound dir' state := by
  cases state with
  | asking cursor pages yielded =>
      obtain ⟨k, hstands⟩ := h
      exact ⟨k, hstands.grows hgrows⟩
  | waiting cursor pages yielded start name =>
      obtain ⟨hstart, k, hk, hname, hstands⟩ := h
      exact ⟨hstart, k, hk, hname, hstands.grows hgrows⟩
  | done yielded => exact Within.grows h hgrows
  | gaveUp why yielded => exact ⟨h.1, h.2.grows hgrows⟩

theorem PageSound.within {dir : Directory} {state : PageState} (h : PageSound dir state) :
    Within dir state.yielded := by
  cases state with
  | asking cursor pages yielded =>
      obtain ⟨k, hstands⟩ := h
      exact hstands.within
  | waiting cursor pages yielded start name =>
      obtain ⟨-, k, -, -, hstands⟩ := h
      exact hstands.within
  | done yielded => exact h
  | gaveUp why yielded => exact h.2

/-! ## The steps of a page -/

section Steps

variable {dir : Directory} {cursor : Option PyStr} {pages : ℕ} {yielded : List Entry}

/-- **A page is resolved** to the segment of its cursor, and to the active one where it has
none. -/
theorem resolvePage_sound (wire : Wire) (unicodeDigit : CodePoint → Bool) {k : ℕ} {start : ℤ}
    {name : PyStr} (h : Stands dir k cursor yielded)
    (hresolve : resolvePage unicodeDigit dir (cursor.map wire.deliver) = .ok (start, name)) :
    PageSound dir (.waiting cursor pages yielded start name) := by
  rcases h with ⟨rfl, rfl⟩ | ⟨rfl, hstarts⟩
  · have hresolve : (do return ((0 : ℤ), ← activeSegment dir trailName)) = Except.ok (start, name) :=
      hresolve
    obtain ⟨name', hactive, hpair⟩ := bind_eq_ok_iff.mp hresolve
    obtain ⟨rfl, rfl⟩ := Prod.mk.inj (Except.ok.inj hpair)
    obtain ⟨hnewest, rfl⟩ := isActive_of_activeSegment hactive
    exact ⟨rfl, _, hnewest.numbered, rfl, .inl ⟨rfl, rfl⟩⟩
  · have hdecode := decodeCursor_encodeCursor unicodeDigit yielded.length (segmentIdentity_ne_nil k)
    rw [Option.map_some, cursorAfter, wire.deliver_unreserved _ (isUnreserved_encodeCursor _ k),
      resolvePage, hdecode] at hresolve
    dsimp only [bind, Except.bind] at hresolve
    rw [segmentIdentity_append_suffix] at hresolve
    split at hresolve
    · cases hresolve
    · next found hfound =>
        obtain ⟨rfl, rfl⟩ := Prod.mk.inj (Except.ok.inj hresolve)
        have hname := of_decide_eq_true (@List.find?_some _ (fun x => decide (x = segmentAt k)) _ _
          hfound)
        exact ⟨rfl, k, hstarts.1, hname, .inr ⟨rfl, hstarts⟩⟩

omit [Interpreter] in
/-- What the rows before a page and those of the page make up. -/
theorem append_pageRows {rows : List Entry} (h : yielded <+: rows) (limit : ℕ) :
    yielded ++ pageRows limit yielded.length rows = rows.take (yielded.length + limit) := by
  rw [List.take_add, pageRows, ← List.prefix_iff_eq_take.mp h]

/-- How a page of the segment `name` is served to a client that has these rows of it. -/
inductive Served (wire : Wire) (size : PageSize) (dir : Directory) (name : PyStr) (pages : ℕ)
    (yielded : List Entry) : PageState → Prop
  /-- The segment is not there, and nothing has been yielded. -/
  | missing (h : name ∉ dir) : Served wire size dir name pages yielded (.done [])
  /-- The page cannot be written down. -/
  | unrendered {rows : List Entry} (hrows : Rows dir name rows) (nextCursor : Option PyStr)
      (h : ∀ body, wire.render (pageBody ((pageRows size.val yielded.length rows).map
        fun e => .obj (storedMembers e)) nextCursor) ≠ .ok body) :
      Served wire size dir name pages yielded (.gaveUp .unanswered yielded)
  /-- It is the last one. -/
  | last {rows : List Entry} (hrows : Rows dir name rows) :
      Served wire size dir name pages yielded (.done rows)
  /-- There are more rows behind it. -/
  | more {rows : List Entry} (k : ℕ) (hname : name = segmentAt k) (hrows : Rows dir name rows)
      (hmore : yielded.length + size.val < rows.length) :
      Served wire size dir name pages yielded
        (.asking (some (cursorAfter k (rows.take (yielded.length + size.val)))) (pages + 1)
          (rows.take (yielded.length + size.val)))

/-- **A page is served**: it holds the next rows of its segment.  If it is the last one, the
client has them all, and otherwise it goes on behind them. -/
theorem served_receivePage (wire : Wire) (size : PageSize) {chainId : PyStr} {start : ℤ}
    {name : PyStr} (htrail : TrailSound chainId dir)
    (h : PageSound dir (.waiting cursor pages yielded start name)) :
    Served wire size dir name pages yielded
      (receivePage cursor pages yielded (entriesBody wire size dir cursor start name)) := by
  obtain ⟨rfl, k, hk, rfl, hstands⟩ := h
  by_cases hmem : segmentAt k ∈ dir
  · obtain ⟨rows, hrows⟩ := htrail.rows k hk hmem
    have hstart : yielded <+: rows := by
      rcases hstands with ⟨-, rfl⟩ | ⟨-, -, rows', hrows', hstart⟩
      · exact List.nil_prefix
      · rwa [hrows.unique hrows']
    have hstorable : ∀ e ∈ pageRows size.val yielded.length rows, Storable e := fun e he =>
      hrows.wellFormed.storable e (List.mem_of_mem_drop (List.mem_of_mem_take he))
    have hnotEmpty : ¬ ((pageRows size.val yielded.length rows).map
        (fun e => Json.obj (storedMembers e)) = [] ∧ cursor = none) := by
      rintro ⟨hnil, rfl⟩
      have hyielded : yielded = [] := by
        rcases hstands with ⟨-, hnil⟩ | ⟨hcursor, -⟩
        · exact hnil
        · cases hcursor
      rw [List.map_eq_nil_iff, pageRows, hyielded, List.length_nil, List.drop_zero,
        List.take_eq_nil_iff] at hnil
      rcases hnil with hzero | hnil
      · exact absurd hzero (Nat.pos_iff_ne_zero.mp size.pos)
      · exact hrows.ne_nil hnil
    rw [entriesBody, pageOf_rows size hrows]
    simp only [if_neg hnotEmpty]
    have hpage := append_pageRows hstart size.val
    by_cases hlt : yielded.length + size.val < rows.length
    · rw [if_pos hlt]
      rcases hbody : wire.render (pageBody _ _) with e | body
      · exact .unrendered hrows _ fun body hok => nomatch hbody.symm.trans hok
      · have hcursor : ∀ c, some (encodeCursor (yielded.length + size.val : ℕ)
            (segmentIdentity (segmentAt k))) = some c → NoSurrogatePair c := by
          rintro c hc
          obtain rfl := Option.some.inj hc
          exact noSurrogatePair_of_isUnreserved (isUnreserved_encodeCursor _ k)
        have hfresh : some (encodeCursor (yielded.length + size.val : ℕ)
            (segmentIdentity (segmentAt k))) ≠ cursor := by
          rintro rfl
          rcases hstands with ⟨hnone, -⟩ | ⟨hsame, -⟩
          · cases hnone
          · have := encodeCursor_inj (segmentIdentity_ne_nil k) (Option.some.inj hsame)
            have := size.pos
            omega
        have hreceive :=
          (receivePage_pageBody wire cursor pages yielded hstorable hcursor hbody).2 _ rfl hfresh
        have hafter : encodeCursor (yielded.length + size.val : ℕ) (segmentIdentity (segmentAt k)) =
            cursorAfter k (rows.take (yielded.length + size.val)) := by
          rw [cursorAfter, List.length_take, Nat.min_eq_left hlt.le]
        simp only [hreceive, hpage, hafter]
        exact .more k rfl hrows hlt
    · rw [if_neg hlt]
      rcases hbody : wire.render (pageBody _ _) with e | body
      · exact .unrendered hrows _ fun body hok => nomatch hbody.symm.trans hok
      · have hreceive := (@receivePage_pageBody _ wire cursor pages yielded _ none body hstorable
          nofun hbody).1 rfl
        simp only [hreceive, hpage, List.take_of_length_le (Nat.not_lt.mp hlt)]
        exact .last hrows
  · rcases hstands with ⟨rfl, rfl⟩ | ⟨-, -, rows, hrows, -⟩
    · rw [entriesBody, pageOf_notMem size hmem]
      exact .missing hmem
    · exact absurd hrows.present hmem

/-- A served page keeps the invariant. -/
theorem receivePage_sound (wire : Wire) (size : PageSize) {chainId : PyStr} {start : ℤ}
    {name : PyStr} (htrail : TrailSound chainId dir)
    (h : PageSound dir (.waiting cursor pages yielded start name)) :
    PageSound dir (receivePage cursor pages yielded (entriesBody wire size dir cursor start name)) := by
  have hserved := served_receivePage wire size htrail h
  obtain ⟨-, k, hk, rfl, hstands⟩ := h
  generalize receivePage cursor pages yielded _ = state at hserved ⊢
  cases hserved with
  | missing hmem => exact .inl rfl
  | unrendered hrows nextCursor hrender => exact ⟨.inl rfl, hstands.within⟩
  | last hrows => exact .inr ⟨k, hk, _, hrows, List.prefix_refl _⟩
  | more k' hname hrows hmore =>
      obtain rfl := segmentAt_inj hname
      exact ⟨k, .inr ⟨rfl, hk, _, hrows, List.take_prefix _ _⟩⟩

/-- The rows the loop ends with are those of the segment. -/
theorem Served.entries {wire : Wire} {size : PageSize} {name : PyStr} {all : List Entry}
    (h : Served wire size dir name pages yielded (.done all)) :
    Waxseal.entries (fileOf dir name) = .ok all := by
  cases h with
  | missing hmem => rw [fileOf_of_notMem hmem]; rfl
  | last hrows => exact hrows.entries

end Steps

/-! ## Runs -/

section Runs

variable [Hashlib] {store : ChainStore} {wire : Wire} {unicodeDigit : CodePoint → Bool}
  {size : PageSize} {w : Reading}

/-- The invariant of the two together. -/
structure Reading.Sound (store : ChainStore) (w : Reading) : Prop where
  chain : w.chain.Sound store
  page : PageSound w.chain.dir w.reader

namespace Reading

/-- **Every step keeps the invariant.** -/
theorem Sound.step (h : w.Sound store) (s : ReadStep) :
    (w.step store wire unicodeDigit size s).Sound store := by
  obtain ⟨chain, reader⟩ := w
  cases s with
  | server s =>
      have hkeeps := h.chain.step s
      exact ⟨hkeeps.sound, h.page.grows hkeeps.grows⟩
  | resolve =>
      cases reader with
      | asking cursor pages yielded =>
          obtain ⟨k, hstands⟩ := h.page
          refine ⟨?_, ?_⟩
          · unfold Reading.step
            dsimp only
            split_ifs
            · exact h.chain
            · split <;> exact h.chain
          · unfold Reading.step
            dsimp only
            split_ifs
            · exact ⟨.inr rfl, hstands.within⟩
            · split
              · exact ⟨.inl rfl, hstands.within⟩
              · next start name hresolve => exact resolvePage_sound wire unicodeDigit hstands hresolve
      | waiting cursor pages yielded start name => exact h
      | done yielded => exact h
      | gaveUp why yielded => exact h
  | serve =>
      cases reader with
      | waiting cursor pages yielded start name =>
          exact ⟨h.chain, receivePage_sound wire size h.chain.trail h.page⟩
      | asking cursor pages yielded => exact h
      | done yielded => exact h
      | gaveUp why yielded => exact h
  | fault =>
      cases reader with
      | asking cursor pages yielded => exact ⟨h.chain, .inl rfl, h.page.within⟩
      | waiting cursor pages yielded start name => exact ⟨h.chain, .inl rfl, h.page.within⟩
      | done yielded => exact h
      | gaveUp why yielded => exact h

/-- **The invariant of a run.** -/
theorem Sound.run (h : w.Sound store) (steps : List ReadStep) :
    (w.run store wire unicodeDigit size steps).Sound store := by
  induction steps generalizing w with
  | nil => exact h
  | cons s steps ih => exact ih (h.step s)

omit [Hashlib] in
theorem sound_fresh : fresh.Sound store where
  chain := ChainDir.sound_fresh fun name hname => absurd hname (AList.notMem_empty name)
  page := ⟨0, .inl ⟨rfl, rfl⟩⟩

/-- **The last page**: the step that ends the loop finds in one segment the rows that have been
yielded, and no more. -/
theorem Sound.finished (h : w.Sound store) {s : ReadStep} {all : List Entry}
    (hbefore : ∀ yielded, w.reader ≠ .done yielded)
    (hafter : (w.step store wire unicodeDigit size s).reader = .done all) :
    ∃ name, isTrailSegment name = true ∧ entries (fileOf w.chain.dir name) = .ok all := by
  obtain ⟨chain, reader⟩ := w
  cases s with
  | server s => exact absurd hafter (hbefore all)
  | resolve =>
      cases reader with
      | asking cursor pages yielded =>
          unfold Reading.step at hafter
          dsimp only at hafter
          split_ifs at hafter
          split at hafter
          · cases hafter
          · cases hafter
      | waiting cursor pages yielded start name => cases hafter
      | done yielded => exact absurd rfl (hbefore yielded)
      | gaveUp why yielded => cases hafter
  | serve =>
      cases reader with
      | waiting cursor pages yielded start name =>
          have hserved := served_receivePage wire size h.chain.trail h.page
          obtain ⟨-, k, hk, rfl, -⟩ := h.page
          rw [show receivePage _ _ _ _ = PageState.done all from hafter] at hserved
          exact ⟨segmentAt k, isTrailSegment_segmentAt hk, hserved.entries⟩
      | asking cursor pages yielded => cases hafter
      | done yielded => exact absurd rfl (hbefore yielded)
      | gaveUp why yielded => cases hafter
  | fault =>
      cases reader with
      | asking cursor pages yielded => cases hafter
      | waiting cursor pages yielded start name => cases hafter
      | done yielded => exact absurd rfl (hbefore yielded)
      | gaveUp why yielded => cases hafter

/-! ## A client that is left alone -/

/-- The client asks for a page, and has it served. -/
def nextPage (store : ChainStore) (wire : Wire) (unicodeDigit : CodePoint → Bool) (size : PageSize)
    (w : Reading) : Reading :=
  (w.step store wire unicodeDigit size .resolve).step store wire unicodeDigit size .serve

omit [Interpreter] [Hashlib] in
/-- There is always an active segment. -/
theorem exists_activeSegment (dir : Directory) : ∃ name, activeSegment dir trailName = .ok name := by
  rw [activeSegment, activeIn]
  split
  · next ordinal hmax =>
      have hmem := mem_ordinals.mp (List.max?_mem hmax)
      exact ⟨_, segmentName_of_lt hmem.1⟩
  · exact ⟨_, rfl⟩

/-- The segments of the chain are the ones that are listed, and the pages of entries can be
written down. -/
structure Legible (wire : Wire) (dir : Directory) : Prop where
  listed : ∀ k ≤ 10 ^ segmentDigits, segmentAt k ∈ dir → segmentAt k ∈ segmentsIn dir
  rendered : ∀ k ≤ 10 ^ segmentDigits, ∀ rows, Rows dir (segmentAt k) rows →
    ∀ start limit nextCursor, ∃ body,
      wire.render (pageBody ((pageRows limit start rows).map fun e => .obj (storedMembers e))
        nextCursor) = .ok body

omit [Hashlib] in
/-- A page is resolved where the segments are listed. -/
theorem exists_resolvePage {dir : Directory} (hlegible : Legible wire dir) {k : ℕ}
    {cursor : Option PyStr} {yielded : List Entry} (h : Stands dir k cursor yielded) :
    ∃ start name, resolvePage unicodeDigit dir (cursor.map wire.deliver) = .ok (start, name) := by
  rcases h with ⟨rfl, -⟩ | ⟨rfl, hk, rows, hrows, -⟩
  · obtain ⟨name, hactive⟩ := exists_activeSegment dir
    exact ⟨0, name, bind_eq_ok_iff.mpr ⟨(0, none), rfl, bind_eq_ok_iff.mpr ⟨name, hactive, rfl⟩⟩⟩
  · have hdecode := decodeCursor_encodeCursor unicodeDigit yielded.length (segmentIdentity_ne_nil k)
    have hlisted := hlegible.listed k hk hrows.present
    obtain ⟨name, hname⟩ : ∃ name, (segmentsIn dir).find? (· = segmentAt k) = some name :=
      Option.isSome_iff_exists.mp (List.find?_isSome.mpr ⟨_, hlisted, decide_eq_true rfl⟩)
    refine ⟨yielded.length, name, ?_⟩
    rw [Option.map_some, cursorAfter, wire.deliver_unreserved _ (isUnreserved_encodeCursor _ k),
      resolvePage, hdecode]
    have hname : (segmentsIn dir).find? (· = segmentIdentity (segmentAt k) ++ segmentSuffix) =
        some name := by rw [segmentIdentity_append_suffix, hname]
    refine bind_eq_ok_iff.mpr ⟨_, rfl, ?_⟩
    simp only [hname]
    rfl

/-- **A client that is left alone** has another page, or is done. -/
theorem nextPage_cases {cursor : Option PyStr} {pages : ℕ} {yielded : List Entry}
    (h : w.Sound store) (hlegible : Legible wire w.chain.dir)
    (hreader : w.reader = .asking cursor pages yielded) (hpages : pages < maxPages) :
    (nextPage store wire unicodeDigit size w).chain = w.chain ∧
      ((∃ all, (nextPage store wire unicodeDigit size w).reader = .done all) ∨
        ∃ k rows nextCursor more, k ≤ 10 ^ segmentDigits ∧ Rows w.chain.dir (segmentAt k) rows ∧
          (nextPage store wire unicodeDigit size w).reader = .asking nextCursor (pages + 1) more ∧
          more.length = yielded.length + size.val ∧ more.length < rows.length) := by
  obtain ⟨chain, reader⟩ := w
  obtain rfl : reader = _ := hreader
  obtain ⟨k, hstands⟩ := h.page
  obtain ⟨start, name, hresolve⟩ := exists_resolvePage hlegible hstands
  have hwaiting := @resolvePage_sound _ chain.dir cursor pages yielded wire unicodeDigit k start name
    hstands hresolve
  have hnext : nextPage store wire unicodeDigit size ⟨chain, .asking cursor pages yielded⟩ =
      ⟨chain, receivePage cursor pages yielded
        (entriesBody wire size chain.dir cursor start name)⟩ := by
    have hstep : Reading.step store wire unicodeDigit size ⟨chain, .asking cursor pages yielded⟩
        .resolve = ⟨chain, .waiting cursor pages yielded start name⟩ := by
      simp only [Reading.step, if_neg (Nat.not_le.mpr hpages), hresolve]
    rw [nextPage, hstep]
    rfl
  have hserved := served_receivePage wire size h.chain.trail hwaiting
  obtain ⟨-, k', hk', rfl, -⟩ := hwaiting
  rw [hnext]
  refine ⟨rfl, ?_⟩
  dsimp only
  generalize receivePage cursor pages yielded _ = state at hserved ⊢
  cases hserved with
  | missing hmem => exact .inl ⟨_, rfl⟩
  | unrendered hrows nextCursor hrender =>
      obtain ⟨body, hbody⟩ := hlegible.rendered k' hk' _ hrows yielded.length size.val nextCursor
      exact absurd hbody (hrender body)
  | last hrows => exact .inl ⟨_, rfl⟩
  | more k'' hname hrows hmore =>
      refine .inr ⟨k', _, _, _, hk', hrows, rfl, ?_, ?_⟩
      · rw [List.length_take, Nat.min_eq_left hmore.le]
      · rw [List.length_take, Nat.min_eq_left hmore.le]
        exact hmore

/-- **It reads to the end**, if the pages it may ask for have room for the rows. -/
theorem reads_to_the_end {left pages : ℕ} {cursor : Option PyStr} {yielded : List Entry}
    (h : w.Sound store) (hlegible : Legible wire w.chain.dir)
    (hreader : w.reader = .asking cursor pages yielded) (hpages : pages + (left + 1) = maxPages)
    (hroom : ∀ k ≤ 10 ^ segmentDigits, ∀ rows, Rows w.chain.dir (segmentAt k) rows →
      rows.length ≤ yielded.length + (left + 1) * size.val) :
    ∃ n all, ((nextPage store wire unicodeDigit size)^[n] w).reader = .done all := by
  induction left generalizing w pages cursor yielded with
  | zero =>
      obtain ⟨-, ⟨all, hall⟩ | ⟨k, rows, nextCursor, more, hk, hrows, -, hlength, hlt⟩⟩ :=
        nextPage_cases h hlegible hreader (by omega)
      · exact ⟨1, all, hall⟩
      · have := hroom k hk rows hrows
        omega
  | succ left ih =>
      obtain ⟨hchain, ⟨all, hall⟩ | ⟨k, rows, nextCursor, more, hk, hrows, hasking, hlength, hlt⟩⟩ :=
        nextPage_cases h hlegible hreader (by omega)
      · exact ⟨1, all, hall⟩
      · have hnext : (nextPage store wire unicodeDigit size w).Sound store :=
          (h.step .resolve).step .serve
        rw [← hchain] at hlegible
        obtain ⟨n, all, hn⟩ := ih hnext hlegible hasking (by omega) (fun k' hk' rows' hrows' => by
          rw [hchain] at hrows'
          have := hroom k' hk' rows' hrows'
          rw [Nat.succ_mul (left + 1)] at this
          omega)
        exact ⟨n + 1, all, hn⟩

end Reading

/-- What holds of a chain and the client that reads it. -/
structure Reading.LosesNothing (store : ChainStore) (wire : Wire)
    (unicodeDigit : CodePoint → Bool) (size : PageSize) (w : Reading) : Prop where
  /-- All that has been yielded is the start of one segment. -/
  oneSegment : ∃ name rows, isTrailSegment name = true ∧
    entries (fileOf w.chain.dir name) = .ok rows ∧ w.reader.yielded <+: rows
  /-- The page that ends the loop ends with the last row its segment has by then. -/
  finished : ∀ s all, (∀ yielded, w.reader ≠ .done yielded) →
    (w.step store wire unicodeDigit size s).reader = .done all →
    ∃ name, isTrailSegment name = true ∧ entries (fileOf w.chain.dir name) = .ok all
  /-- The loop gives up over a missing answer or too many pages only. -/
  gaveUp : ∀ why yielded, w.reader = .gaveUp why yielded → why = .unanswered ∨ why = .tooManyPages
  /-- Left alone, on a chain whose rows fit into its pages, it comes to its end. -/
  ends : w.reader = .asking none 0 [] → Reading.Legible wire w.chain.dir →
    (∀ k ≤ 10 ^ segmentDigits, ∀ rows, Rows w.chain.dir (segmentAt k) rows →
      rows.length ≤ maxPages * size.val) →
    ∃ n all, ((Reading.nextPage store wire unicodeDigit size)^[n] w).reader = .done all

end Runs

/-! ## One entry -/

/-- A hash that was made up. -/
def someHash : PyStr := List.replicate 64 (.ofChar 'a')

/-- The first entry of a chain. -/
def firstEntry : Entry :=
  ⟨⟨0, str "now", someHash, str "text/plain", someHash, genesisPrevHash⟩, someHash, some []⟩

/-- A chain. -/
def someChain : ChainStore := ⟨str "chain", 1000000, by decide⟩

/-- Nothing goes wrong. -/
def soundCall : Call := ⟨false, .bytes [], [], .ok [], .sound, none, none, ⟨none, none, none⟩⟩

/-- The entry is posted while the first page is asked for. -/
def postedSteps : List ReadStep :=
  [.server (.post (storedBytes firstEntry)), .server (.look 0), .server (.measure 0),
    .server (.enter 0), .resolve, .server (.work soundCall), .server (.work soundCall)]

/-- What the loop has ended with. -/
def PageState.ended : PageState → Option (List Entry)
  | .done yielded => some yielded
  | _ => none

omit [Interpreter] in
theorem PageState.ended_eq_some {state : PageState} {all : List Entry} (h : state.ended = some all) :
    state = .done all := by
  cases state with
  | done yielded => rw [Option.some.inj h]
  | asking cursor pages yielded => cases h
  | waiting cursor pages yielded start name => cases h
  | gaveUp why yielded => cases h

end Waxseal
