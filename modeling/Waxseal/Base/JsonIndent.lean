import Waxseal.Base.JsonLoads

/-!
# Indented JSON

`json.dumps(value, indent=n)`: a line for every member and every item.  The blanks are
whitespace to the reader, so it reads back what was written (`readText_dumpsIndent`,
`loads_dumpsIndent`).
-/

namespace Waxseal

namespace Json

/-- A line break, and the indentation of a line inside `level` containers. -/
def newline (indent level : ℕ) : PyStr := 0x0A :: List.replicate (indent * level) 0x20

section Dumps

variable [Interpreter] (indent : ℕ)

mutual

/-- `json.dumps(value, indent=indent)` inside `level` containers. -/
def dumpsIndent (level : ℕ) : Json → PyStr
  | .arr (item :: items) =>
      lbracket :: (newline indent (level + 1)
        ++ (dumpsIndent (level + 1) item ++ dumpsIndentItems level items))
  | .obj ((key, value) :: members) =>
      lbrace :: (newline indent (level + 1) ++ (dumpsStr key ++ (Separators.spaced.key
        ++ (dumpsIndent (level + 1) value ++ dumpsIndentMembers level members))))
  | value => dumps .spaced value

/-- The items after the first, and the closing bracket. -/
def dumpsIndentItems (level : ℕ) : List Json → PyStr
  | [] => newline indent level ++ [rbracket]
  | item :: items =>
      comma :: (newline indent (level + 1)
        ++ (dumpsIndent (level + 1) item ++ dumpsIndentItems level items))

/-- The members after the first, and the closing brace. -/
def dumpsIndentMembers (level : ℕ) : List (PyStr × Json) → PyStr
  | [] => newline indent level ++ [rbrace]
  | (key, value) :: members =>
      comma :: (newline indent (level + 1) ++ (dumpsStr key ++ (Separators.spaced.key
        ++ (dumpsIndent (level + 1) value ++ dumpsIndentMembers level members))))

end

end Dumps

/-! ## Reading it back -/

theorem skipWs_newline (indent level : ℕ) (s : PyStr) :
    skipWs (newline indent level ++ s) = skipWs s := by
  have hblank : ∀ c ∈ newline indent level, isWs c = true := by
    intro c hc
    rcases List.mem_cons.mp hc with rfl | hc
    · rfl
    · rw [List.eq_of_mem_replicate hc]
      rfl
  exact List.dropWhile_append_of_pos hblank

theorem stops_newline (indent level : ℕ) (s : PyStr) : Stops (newline indent level ++ s) :=
  ⟨0x0A, _, rfl, rfl⟩

variable [Interpreter] {indent level : ℕ}

/-- An indented value starts with a character of its own. -/
theorem dumpsIndent_cons {depth : ℕ} {v : Json} (h : Writable depth v) :
    ∃ c l, dumpsIndent indent level v = c :: l ∧ isWs c = false ∧ c ≠ rbracket := by
  cases v with
  | arr items =>
      cases items with
      | nil => exact ⟨_, _, rfl, by decide⟩
      | cons item items => exact ⟨_, _, rfl, by decide⟩
  | obj members =>
      cases members with
      | nil => exact ⟨_, _, rfl, by decide⟩
      | cons m members => exact ⟨_, _, rfl, by decide⟩
  | _ => exact dumps_cons h

theorem skipWs_dumpsIndent {depth : ℕ} {v : Json} (h : Writable depth v) (t : PyStr) :
    skipWs (dumpsIndent indent level v ++ t) = dumpsIndent indent level v ++ t := by
  obtain ⟨c, l, heq, hc, -⟩ := @dumpsIndent_cons _ indent level _ _ h
  rw [heq, List.cons_append]
  exact skipWs_cons hc _

theorem stops_dumpsIndentItems (items : List Json) (t : PyStr) :
    Stops (dumpsIndentItems indent level items ++ t) := by
  cases items with
  | nil =>
      rw [dumpsIndentItems, List.append_assoc]
      exact stops_newline indent level _
  | cons item items => exact ⟨comma, _, rfl, rfl⟩

theorem stops_dumpsIndentMembers (members : List (PyStr × Json)) (t : PyStr) :
    Stops (dumpsIndentMembers indent level members ++ t) := by
  cases members with
  | nil =>
      rw [dumpsIndentMembers, List.append_assoc]
      exact stops_newline indent level _
  | cons m members => exact ⟨comma, _, rfl, rfl⟩

/-- The items after one that was read, if the scanner reads each of them. -/
theorem scanItems_dumpsIndentItems {value : Scan} {items : List Json} {t : PyStr}
    (hitems : ∀ item ∈ items, ∀ t,
      skipWs (dumpsIndent indent (level + 1) item ++ t) = dumpsIndent indent (level + 1) item ++ t ∧
      (Stops t → value (dumpsIndent indent (level + 1) item ++ t) = .ok (item, t))) :
    ∀ (n : ℕ) (read : List Json) (v : Json) (s : PyStr), items.length < n →
      value s = .ok (v, dumpsIndentItems indent level items ++ t) →
      scanItems value n read s = .ok (.arr (read.reverse ++ v :: items), t) := by
  induction items with
  | nil =>
      intro n read v s hn hv
      obtain ⟨n, rfl⟩ : ∃ k, n = k + 1 := ⟨n - 1, by rw [List.length_nil] at hn; omega⟩
      simp only [scanItems, hv, dumpsIndentItems, List.append_assoc, skipWs_newline,
        List.singleton_append, skipWs_cons (show isWs rbracket = false from rfl), if_true,
        List.reverse_cons]
  | cons item items ih =>
      intro n read v s hn hv
      rw [List.length_cons] at hn
      obtain ⟨n, rfl⟩ : ∃ k, n = k + 1 := ⟨n - 1, by omega⟩
      obtain ⟨hstart, hread⟩ := hitems item List.mem_cons_self
        (dumpsIndentItems indent level items ++ t)
      have hnext := ih (fun x hx => hitems x (List.mem_cons_of_mem item hx)) n (v :: read) item _
        (by omega) (hread (stops_dumpsIndentItems items t))
      simp only [scanItems, hv, dumpsIndentItems, List.cons_append, List.append_assoc,
        skipWs_cons (show isWs comma = false from rfl),
        if_neg (show comma ≠ rbracket by decide), if_true, skipWs_newline, hstart, hnext,
        List.reverse_cons, List.nil_append]

theorem scanMember_dumpsIndent {value : Scan} {key : PyStr} {v : Json} {t : PyStr}
    (hkey : NoSurrogatePair key)
    (hstart : skipWs (dumpsIndent indent level v ++ t) = dumpsIndent indent level v ++ t)
    (hv : value (dumpsIndent indent level v ++ t) = .ok (v, t)) :
    scanMember value (dumpsStr key ++ (Separators.spaced.key ++ (dumpsIndent indent level v ++ t)))
      = .ok (key, v, t) := by
  rw [dumpsStr_append]
  simp only [scanMember, if_true, scanString_dumpsStr hkey, Separators.key, List.cons_append,
    skipWs_cons (show isWs colon = false from rfl), skipWs_gap .spaced hstart, hv]
  rfl

/-- The members after one that was read, if the scanner reads each of them. -/
theorem scanMembers_dumpsIndentMembers {value : Scan} {members : List (PyStr × Json)} {t : PyStr}
    (hmembers : ∀ m ∈ members, ∀ t, Stops t →
      scanMember value (dumpsStr m.1 ++ (Separators.spaced.key
        ++ (dumpsIndent indent (level + 1) m.2 ++ t))) = .ok (m.1, m.2, t)) :
    ∀ (n : ℕ) (read : List (PyStr × Json)) (key : PyStr) (v : Json) (s : PyStr),
      members.length < n → (read.map Prod.fst ++ key :: members.map Prod.fst).Nodup →
      scanMember value s = .ok (key, v, dumpsIndentMembers indent level members ++ t) →
      scanMembers value n read s = .ok (.obj (read ++ (key, v) :: members), t) := by
  have fresh : ∀ {ks ls : List PyStr} {key : PyStr}, (ks ++ key :: ls).Nodup → key ∉ ks :=
    fun hkeys hmem => (List.nodup_append.mp hkeys).2.2 _ hmem _ List.mem_cons_self rfl
  induction members with
  | nil =>
      intro n read key v s hn hkeys hv
      obtain ⟨n, rfl⟩ : ∃ k, n = k + 1 := ⟨n - 1, by rw [List.length_nil] at hn; omega⟩
      simp only [scanMembers, hv, dumpsIndentMembers, List.append_assoc, skipWs_newline,
        List.singleton_append, skipWs_cons (show isWs rbrace = false from rfl), if_true,
        setItem_of_notMem (fresh hkeys)]
  | cons m members ih =>
      obtain ⟨key₁, w⟩ := m
      intro n read key v s hn hkeys hv
      rw [List.length_cons] at hn
      obtain ⟨n, rfl⟩ : ∃ k, n = k + 1 := ⟨n - 1, by omega⟩
      have hread := hmembers (key₁, w) List.mem_cons_self _
        (@stops_dumpsIndentMembers _ indent level members t)
      have hnext := ih (fun x hx => hmembers x (List.mem_cons_of_mem _ hx)) n
        (read ++ [(key, v)]) key₁ w _ (by omega) (by simpa using hkeys) hread
      have hstart : ∀ t, skipWs (dumpsStr key₁ ++ t) = dumpsStr key₁ ++ t := fun t =>
        skipWs_cons (show isWs quote = false from rfl) _
      simp only [scanMembers, hv, dumpsIndentMembers, List.cons_append, List.append_assoc,
        skipWs_cons (show isWs comma = false from rfl), if_neg (show comma ≠ rbrace by decide),
        if_true, skipWs_newline, hstart, setItem_of_notMem (fresh hkeys), hnext, List.nil_append]

theorem length_dumpsIndentItems (items : List Json) :
    items.length < (dumpsIndentItems indent level items).length := by
  induction items with
  | nil => exact Nat.succ_pos _
  | cons item items ih =>
      simp only [dumpsIndentItems, List.length_append, List.length_cons]
      omega

theorem length_dumpsIndentMembers (members : List (PyStr × Json)) :
    members.length < (dumpsIndentMembers indent level members).length := by
  induction members with
  | nil => exact Nat.succ_pos _
  | cons m members ih =>
      simp only [dumpsIndentMembers, List.length_append, List.length_cons]
      omega

theorem scanOnce_arr_indent {depth : ℕ} {value : Scan} {item : Json} {items : List Json}
    (hitems : ∀ x ∈ item :: items, Writable depth x)
    (hread : ∀ x ∈ item :: items, ∀ t, Stops t →
      value (dumpsIndent indent (level + 1) x ++ t) = .ok (x, t)) (t : PyStr) :
    scanOnce (some value) (dumpsIndent indent level (.arr (item :: items)) ++ t)
      = .ok (.arr (item :: items), t) := by
  have hne : lbracket ≠ quote ∧ lbracket ≠ lbrace := by decide
  obtain ⟨c, l, heq, hws, hbracket⟩ :=
    @dumpsIndent_cons _ indent (level + 1) _ _ (hitems item List.mem_cons_self)
  have hfirst := hread item List.mem_cons_self _ (@stops_dumpsIndentItems _ indent level items t)
  have hrest := scanItems_dumpsIndentItems
    (fun x hx t => ⟨skipWs_dumpsIndent (hitems x (List.mem_cons_of_mem item hx)) t,
      hread x (List.mem_cons_of_mem item hx) t⟩)
    (dumpsIndent indent (level + 1) item
      ++ (dumpsIndentItems indent level items ++ t)).length [] item _
    (by have := @length_dumpsIndentItems _ indent level items
        simp only [List.length_append]
        omega) hfirst
  rw [heq, List.cons_append] at hrest
  simp only [dumpsIndent, List.cons_append, List.append_assoc, heq, scanOnce, if_neg hne.1,
    if_neg hne.2, if_true, skipWs_newline, skipWs_cons hws, if_neg hbracket, hrest,
    List.reverse_nil, List.nil_append]

theorem scanOnce_obj_indent {depth : ℕ} {value : Scan} {m : PyStr × Json}
    {members : List (PyStr × Json)} (hkeys : ((m :: members).map Prod.fst).Nodup)
    (hmembers : ∀ x ∈ m :: members, NoSurrogatePair x.1 ∧ Writable depth x.2)
    (hread : ∀ x ∈ m :: members, ∀ t, Stops t →
      value (dumpsIndent indent (level + 1) x.2 ++ t) = .ok (x.2, t)) (t : PyStr) :
    scanOnce (some value) (dumpsIndent indent level (.obj (m :: members)) ++ t)
      = .ok (.obj (m :: members), t) := by
  have hne : lbrace ≠ quote ∧ quote ≠ rbrace := by decide
  have hmember : ∀ x ∈ m :: members, ∀ t, Stops t →
      scanMember value (dumpsStr x.1 ++ (Separators.spaced.key
        ++ (dumpsIndent indent (level + 1) x.2 ++ t))) = .ok (x.1, x.2, t) := fun x hx t ht =>
    scanMember_dumpsIndent (hmembers x hx).1 (skipWs_dumpsIndent (hmembers x hx).2 t)
      (hread x hx t ht)
  obtain ⟨key, v⟩ := m
  have hfirst := hmember (key, v) List.mem_cons_self _
    (@stops_dumpsIndentMembers _ indent level members t)
  have hrest := scanMembers_dumpsIndentMembers
    (fun x hx => hmember x (List.mem_cons_of_mem _ hx))
    (dumpsStr key ++ (Separators.spaced.key ++ (dumpsIndent indent (level + 1) v
      ++ (dumpsIndentMembers indent level members ++ t)))).length [] key v _
    (by have := @length_dumpsIndentMembers _ indent level members
        simp only [List.length_append]
        omega) hkeys hfirst
  rw [dumpsStr_append] at hrest
  simp only [dumpsIndent, List.cons_append, List.append_assoc, dumpsStr_append, scanOnce,
    if_neg hne.1, if_true, skipWs_newline, skipWs_cons (show isWs quote = false from rfl),
    if_neg hne.2, List.nil_append] at hrest ⊢
  exact hrest

/-- **The reader inverts the writer**, whatever follows an object. -/
theorem scan_dumpsIndent {depth : ℕ} {v : Json} {t : PyStr} (h : Writable depth v)
    (ht : Stops t ∨ ∃ members, v = .obj members) :
    scan depth (dumpsIndent indent level v ++ t) = .ok (v, t) := by
  induction depth generalizing v t level with
  | zero =>
      cases v with
      | arr items => exact h.elim
      | obj members => exact h.elim
      | _ => exact scan_dumps h ht
  | succ depth ih =>
      cases v with
      | arr items =>
          cases items with
          | nil => exact scan_dumps h ht
          | cons item items =>
              exact scanOnce_arr_indent h (fun x hx t ht => ih (h x hx) (.inl ht)) t
      | obj members =>
          cases members with
          | nil => exact scan_dumps h ht
          | cons m members =>
              exact scanOnce_obj_indent h.1 h.2 (fun x hx t ht => ih (h.2 x hx).2 (.inl ht)) t
      | _ => exact scan_dumps h ht

/-! ## Text files -/

/-- What indented JSON is written in: printable ASCII and line breaks. -/
def IsLined (c : CodePoint) : Prop := IsPrintable c ∨ c.val = 0x0A

omit [Interpreter] in
theorem isLined_of_printable {s : PyStr} (h : ∀ c ∈ s, IsPrintable c) : ∀ c ∈ s, IsLined c :=
  fun c hc => .inl (h c hc)

omit [Interpreter] in
theorem isLined_newline (indent level : ℕ) : ∀ c ∈ newline indent level, IsLined c := by
  intro c hc
  rcases List.mem_cons.mp hc with rfl | hc
  · exact .inr rfl
  · rw [List.eq_of_mem_replicate hc]
    exact .inl (by decide)

omit [Interpreter] in
/-- A line of the output: a bracket or a comma, the line break, and what stands on the line. -/
theorem isLined_line {c : CodePoint} (hc : IsPrintable c) {s : PyStr} (h : ∀ d ∈ s, IsLined d) :
    ∀ d ∈ c :: (newline indent level ++ s), IsLined d :=
  List.forall_mem_cons.mpr ⟨.inl hc, fun d hd => (List.mem_append.mp hd).elim
    (isLined_newline indent level d) (h d)⟩

omit [Interpreter] in
theorem isLined_append {s t : PyStr} (hs : ∀ c ∈ s, IsLined c) (ht : ∀ c ∈ t, IsLined c) :
    ∀ c ∈ s ++ t, IsLined c :=
  fun c hc => (List.mem_append.mp hc).elim (hs c) (ht c)

omit [Interpreter] in
/-- A key and its value. -/
theorem isLined_member {key s : PyStr} (h : ∀ c ∈ s, IsLined c) :
    ∀ c ∈ dumpsStr key ++ (Separators.spaced.key ++ s), IsLined c :=
  isLined_append (isLined_of_printable fun _ => isPrintable_dumpsStr)
    (isLined_append (isLined_of_printable (isPrintable_separators .spaced).2) h)

omit [Interpreter] in
theorem isLined_close (indent level : ℕ) {c : CodePoint} (hc : IsPrintable c) :
    ∀ d ∈ newline indent level ++ [c], IsLined d :=
  isLined_append (isLined_newline indent level) (List.forall_mem_singleton.mpr (.inl hc))

theorem isLined_dumpsIndentItems {items : List Json}
    (h : ∀ item ∈ items, ∀ c ∈ dumpsIndent indent (level + 1) item, IsLined c) :
    ∀ c ∈ dumpsIndentItems indent level items, IsLined c := by
  induction items with
  | nil => exact isLined_close indent level (by decide)
  | cons item items ih =>
      exact isLined_line (by decide) (isLined_append (h item List.mem_cons_self)
        (ih fun x hx => h x (List.mem_cons_of_mem item hx)))

theorem isLined_dumpsIndentMembers {members : List (PyStr × Json)}
    (h : ∀ m ∈ members, ∀ c ∈ dumpsIndent indent (level + 1) m.2, IsLined c) :
    ∀ c ∈ dumpsIndentMembers indent level members, IsLined c := by
  induction members with
  | nil => exact isLined_close indent level (by decide)
  | cons m members ih =>
      exact isLined_line (by decide) (isLined_member (isLined_append (h m List.mem_cons_self)
        (ih fun x hx => h x (List.mem_cons_of_mem m hx))))

/-- What is written is printable ASCII and line breaks. -/
theorem isLined_dumpsIndent {depth : ℕ} {v : Json} (h : Writable depth v) :
    ∀ c ∈ dumpsIndent indent level v, IsLined c := by
  induction depth generalizing v level with
  | zero =>
      cases v with
      | arr items => exact h.elim
      | obj members => exact h.elim
      | _ => exact isLined_of_printable (isPrintable_dumps h)
  | succ depth ih =>
      cases v with
      | arr items =>
          cases items with
          | nil => exact isLined_of_printable (isPrintable_dumps h)
          | cons item items =>
              exact isLined_line (by decide) (isLined_append (ih (h item List.mem_cons_self))
                (isLined_dumpsIndentItems fun x hx => ih (h x (List.mem_cons_of_mem item hx))))
      | obj members =>
          cases members with
          | nil => exact isLined_of_printable (isPrintable_dumps h)
          | cons m members =>
              exact isLined_line (by decide) (isLined_member (isLined_append
                (ih (h.2 m List.mem_cons_self).2) (isLined_dumpsIndentMembers fun x hx =>
                  ih (h.2 x (List.mem_cons_of_mem m hx)).2)))
      | _ => exact isLined_of_printable (isPrintable_dumps h)

theorem isAscii_dumpsIndent {depth : ℕ} {v : Json} (h : Writable depth v) :
    isAscii (dumpsIndent indent level v) = true := by
  refine List.all_eq_true.mpr fun c hc => decide_eq_true ?_
  rcases isLined_dumpsIndent h c hc with hprint | hline
  · have := hprint.2
    omega
  · omega

/-- **What was written to a text file** is the text read from it. -/
theorem readText_dumpsIndent {depth : ℕ} {v : Json} (h : Writable depth v) :
    (decodeUtf8 (asciiBytes (dumpsIndent indent level v))).map universalNewlines
      = some (dumpsIndent indent level v) := by
  rw [decodeUtf8_encode (encodeUtf8_ascii (isAscii_dumpsIndent h)), Option.map_some,
    universalNewlines_eq_self]
  intro c hc
  rcases isLined_dumpsIndent h c hc with hprint | hline
  · have := hprint.1
    omega
  · omega

/-- **An object is read back.** -/
theorem loads_dumpsIndent {members : List (PyStr × Json)}
    (h : Writable recursionLimit (.obj members)) :
    loads (dumpsIndent indent level (.obj members)) = .ok (.obj members) := by
  have hopen : OpensObject (dumpsIndent indent level (.obj members)) := by
    cases members with
    | nil => exact ⟨_, rfl⟩
    | cons m members => exact ⟨_, rfl⟩
  have hscan := @scan_dumpsIndent _ indent level _ _ [] h (.inr ⟨members, rfl⟩)
  rw [List.append_nil] at hscan
  rw [loads_eq_decode (.inr hopen), decode_eq hopen, hscan]
  rfl

/-- **A torn object cannot be read.** -/
theorem loads_torn_dumpsIndent {members : List (PyStr × Json)}
    (h : Writable recursionLimit (.obj members)) {p q : PyStr}
    (hpq : p ++ q = dumpsIndent indent level (.obj members)) (hq : q ≠ []) (v : Json) :
    loads p ≠ .ok v := by
  intro hload
  cases p with
  | nil =>
      have hnil : scan recursionLimit [] = .error .jsonDecodeError := by
        cases recursionLimit <;> rfl
      simp only [loads, List.head?_nil, decode, skipWs, List.dropWhile_nil, hnil] at hload
      cases hload
  | cons c p =>
      have hopen : OpensObject (c :: p) := by
        cases members with
        | nil => exact ⟨p, congrArg (· :: p) (List.cons.inj hpq).1⟩
        | cons m members => exact ⟨p, congrArg (· :: p) (List.cons.inj hpq).1⟩
      rw [loads_eq_decode (.inr hopen), decode_eq hopen] at hload
      cases hscan : scan recursionLimit (c :: p) with
      | error e =>
          rw [hscan] at hload
          cases hload
      | ok out =>
          have hlong := scan_append q hscan (.inr hopen)
          have hwhole := @scan_dumpsIndent _ indent level _ _ [] h (.inr ⟨members, rfl⟩)
          rw [List.append_nil, ← hpq, hlong] at hwhole
          exact hq (List.append_eq_nil_iff.mp (Prod.mk.inj (Except.ok.inj hwhole)).2).2

end Json

end Waxseal
