import Waxseal.Base.Sha256
import Waxseal.Domain.Registry

/-!
# Descriptors

`domain/registry.py` spells the descriptor of a schema a second time, next to the frame
`fingerprint_for` digests, so that it can be published; `descriptorFrame_eq` says that the two
are the same.  A descriptor read back from outside is decoded by a loop over a position in it.
`Framed` is what both sides mean: `decodeDescriptor_eq_some_iff` says that the decoder accepts
exactly the frames the encoder writes.
-/

namespace Waxseal

/-! ## Encoding -/

/-- One turn of the loop of `descriptor_frame`. -/
def appendComponent (frame : Bytes) (component : PyStr) : Except PyErr Bytes :=
  match encodeUtf8 component with
  | none => .error .unicodeEncodeError
  | some raw => do return frame ++ ((← packQ raw.length) ++ raw)

/-- The frame of a tuple of components. -/
def componentsFrame (components : List PyStr) : Except PyErr Bytes := do
  components.foldlM appendComponent (descriptorPrefix ++ (← packQ components.length))

/-- `descriptor_frame(fields)`. -/
def descriptorFrame (fields : List PyStr) : Except PyErr Bytes :=
  componentsFrame (algorithmName :: encodingName :: fields)

/-- The loop appends what the frame of the fingerprint has after its count. -/
theorem foldlM_appendComponent (components : List PyStr) (frame : Bytes) :
    components.foldlM appendComponent frame
      = (descriptorLpAll components).map fun bytes => frame ++ bytes := by
  induction components generalizing frame with
  | nil => exact congrArg Except.ok (List.append_nil frame).symm
  | cons c components ih =>
      rw [List.foldlM_cons, descriptorLpAll, appendComponent, descriptorLp]
      rcases encodeUtf8 c with - | raw
      · rfl
      · dsimp only
        rcases packQ raw.length with e | size
        · rfl
        · refine (ih _).trans ?_
          rcases descriptorLpAll components with e | bytes
          · rfl
          · exact congrArg Except.ok (List.append_assoc _ _ _)

/-- **The two spellings of the descriptor are one.** -/
theorem descriptorFrame_eq (fields : List PyStr) :
    descriptorFrame fields = fingerprintFrame fields := by
  rw [descriptorFrame, componentsFrame, fingerprintFrame]
  rcases packQ (algorithmName :: encodingName :: fields).length with e | count
  · rfl
  · exact foldlM_appendComponent _ _

/-! ## Decoding -/

/-- The loop of `decode_descriptor`: `count` components from `pos` on. -/
def decodeDescriptorLoop (raw : Bytes) : ℕ → ℕ → List PyStr → Option (List PyStr)
  | 0, pos, components => if pos ≠ raw.length then none else some components
  | count + 1, pos, components =>
      if raw.length < pos + 8 then none
      else
        let size := unpackQ ((raw.drop pos).take 8)
        if raw.length < pos + 8 + size then none
        else
          match decodeUtf8 ((raw.drop (pos + 8)).take size) with
          | none => none
          | some component =>
              decodeDescriptorLoop raw count (pos + 8 + size) (components ++ [component])

/-- `decode_descriptor`. -/
def decodeDescriptor (raw : Bytes) : Option (List PyStr) :=
  if descriptorPrefix.isPrefixOf raw = false then none
  else
    let pos := descriptorPrefix.length
    if raw.length < pos + 8 then none
    else decodeDescriptorLoop raw (unpackQ ((raw.drop pos).take 8)) (pos + 8) []

/-! ## The frames -/

/-- The components, each behind its length, and nothing after them. -/
inductive Framed : List PyStr → Bytes → Prop
  | nil : Framed [] []
  | cons {component : PyStr} {components : List PyStr} {raw rest : Bytes}
      (encoded : encodeUtf8 component = some raw) (fits : raw.length < 2 ^ 64)
      (framed : Framed components rest) :
      Framed (component :: components) (be64 raw.length ++ (raw ++ rest))

theorem descriptorLpAll_eq_ok_iff {components : List PyStr} {bytes : Bytes} :
    descriptorLpAll components = .ok bytes ↔ Framed components bytes := by
  constructor
  · intro h
    induction components generalizing bytes with
    | nil =>
        obtain rfl := Except.ok.inj h
        exact .nil
    | cons c components ih =>
        rw [descriptorLpAll] at h
        obtain ⟨first, hfirst, h⟩ := bind_eq_ok_iff.mp h
        obtain ⟨rest, hrest, h⟩ := bind_eq_ok_iff.mp h
        obtain rfl := Except.ok.inj h
        rw [descriptorLp] at hfirst
        rcases hraw : encodeUtf8 c with - | raw
        · rw [hraw] at hfirst
          cases hfirst
        · rw [hraw] at hfirst
          obtain ⟨size, hsize, hfirst⟩ := bind_eq_ok_iff.mp hfirst
          obtain ⟨hfits, rfl⟩ := packQ_eq_ok_iff.mp hsize
          obtain rfl := Except.ok.inj hfirst
          rw [List.append_assoc]
          exact .cons hraw hfits (ih hrest)
  · intro h
    induction h with
    | nil => rfl
    | @cons c components raw rest hraw hfits _ ih =>
        rw [descriptorLpAll, descriptorLp, hraw, ih, ← List.append_assoc]
        dsimp only
        rw [packQ_of_lt hfits]
        rfl

/-- **The canonical frame**: the prefix, the count, and the components. -/
theorem componentsFrame_eq_ok_iff {components : List PyStr} {raw : Bytes} :
    componentsFrame components = .ok raw ↔ components.length < 2 ^ 64 ∧
      ∃ rest, Framed components rest ∧
        raw = descriptorPrefix ++ (be64 components.length ++ rest) := by
  rw [componentsFrame]
  constructor
  · intro h
    obtain ⟨count, hcount, h⟩ := bind_eq_ok_iff.mp h
    obtain ⟨hlt, rfl⟩ := packQ_eq_ok_iff.mp hcount
    rw [foldlM_appendComponent] at h
    rcases hrest : descriptorLpAll components with e | rest
    · rw [hrest] at h
      cases h
    · rw [hrest] at h
      obtain rfl := Except.ok.inj h
      exact ⟨hlt, rest, descriptorLpAll_eq_ok_iff.mp hrest, List.append_assoc _ _ _⟩
  · rintro ⟨hlt, rest, hframed, rfl⟩
    rw [packQ_of_lt hlt]
    refine (foldlM_appendComponent components _).trans ?_
    rw [descriptorLpAll_eq_ok_iff.mpr hframed]
    exact congrArg Except.ok (List.append_assoc _ _ _)

/-- Eight bytes at a position, as a number, and the bytes behind them. -/
theorem drop_eq_be64_append {raw : Bytes} {pos : ℕ} (h : pos + 8 ≤ raw.length) :
    raw.drop pos = be64 (unpackQ ((raw.drop pos).take 8)) ++ raw.drop (pos + 8) ∧
      unpackQ ((raw.drop pos).take 8) < 2 ^ 64 := by
  have hlength : ((raw.drop pos).take 8).length = 8 := by
    rw [List.length_take, List.length_drop]
    omega
  obtain ⟨hbytes, hlt⟩ := be64_unpackQ hlength
  refine ⟨?_, hlt⟩
  rw [hbytes, ← List.drop_drop, List.take_append_drop]

/-- What the number at a position is, where it was written there. -/
theorem unpackQ_take_of_drop {raw rest : Bytes} {pos n : ℕ} (hn : n < 2 ^ 64)
    (h : raw.drop pos = be64 n ++ rest) :
    unpackQ ((raw.drop pos).take 8) = n ∧ raw.drop (pos + 8) = rest ∧ pos + 8 ≤ raw.length := by
  refine ⟨?_, ?_, ?_⟩
  · rw [h, List.take_left' (length_be64 n), unpackQ_be64 hn]
  · rw [← List.drop_drop, h, List.drop_left' (length_be64 n)]
  · have hlength := congrArg List.length h
    rw [List.length_drop, List.length_append, length_be64] at hlength
    omega

/-- **The loop reads exactly what is framed** from its position on. -/
theorem decodeDescriptorLoop_eq_some_iff {raw : Bytes} {count pos : ℕ}
    {components decoded : List PyStr} (hpos : pos ≤ raw.length) :
    decodeDescriptorLoop raw count pos components = some decoded ↔
      ∃ rest, rest.length = count ∧ Framed rest (raw.drop pos) ∧ decoded = components ++ rest := by
  induction count generalizing pos components with
  | zero =>
      rw [decodeDescriptorLoop]
      constructor
      · intro h
        split_ifs at h with hend
        obtain rfl := Option.some.inj h
        refine ⟨[], rfl, ?_, (List.append_nil _).symm⟩
        rw [not_not.mp hend, List.drop_length]
        exact .nil
      · rintro ⟨rest, hrest, hframed, rfl⟩
        obtain rfl := List.length_eq_zero_iff.mp hrest
        generalize hdrop : raw.drop pos = bytes at hframed
        cases hframed
        have := List.drop_eq_nil_iff.mp hdrop
        rw [if_neg (not_not.mpr (by omega)), List.append_nil]
  | succ count ih =>
      rw [decodeDescriptorLoop]
      constructor
      · intro h
        split_ifs at h with hshort
        dsimp only at h
        split_ifs at h with hshort'
        obtain ⟨hdrop, hlt⟩ := drop_eq_be64_append (Nat.not_lt.mp hshort)
        generalize unpackQ ((raw.drop pos).take 8) = size at h hshort' hdrop hlt
        rcases htext : decodeUtf8 ((raw.drop (pos + 8)).take size) with - | component
        · rw [htext] at h
          cases h
        · rw [htext] at h
          obtain ⟨rest, hrest, hframed, rfl⟩ := (ih (Nat.not_lt.mp hshort')).mp h
          have hlength : ((raw.drop (pos + 8)).take size).length = size := by
            rw [List.length_take, List.length_drop]
            omega
          refine ⟨component :: rest, by rw [List.length_cons, hrest], ?_,
            List.append_assoc _ _ _⟩
          have hcons := Framed.cons (decodeUtf8_eq_some_iff.mp htext) (hlength.symm ▸ hlt) hframed
          have hrest' : raw.drop (pos + 8 + size) = (raw.drop (pos + 8)).drop size :=
            List.drop_drop.symm
          rwa [hlength, hrest', List.take_append_drop, ← hdrop] at hcons
      · rintro ⟨rest, hrest, hframed, rfl⟩
        generalize hbytes : raw.drop pos = bytes at hframed
        cases hframed with
        | nil => cases hrest
        | @cons component rest bytes rest' hencoded hfits hframed =>
            obtain ⟨hsize, hdrop, hshort⟩ := unpackQ_take_of_drop hfits hbytes
            have hend := congrArg List.length hdrop
            rw [List.length_drop, List.length_append] at hend
            rw [if_neg (by omega), ← hbytes, hsize]
            dsimp only
            rw [if_neg (by omega), hdrop, List.take_left, decodeUtf8_eq_some_iff.mpr hencoded]
            refine (ih (by omega)).mpr ⟨rest, Nat.succ.inj hrest, ?_,
              (List.append_assoc components [component] rest).symm⟩
            rwa [← List.drop_drop, hdrop, List.drop_left]

/-- **What is decoded is what was framed.** -/
theorem decodeDescriptor_eq_some_iff {raw : Bytes} {components : List PyStr} :
    decodeDescriptor raw = some components ↔ componentsFrame components = .ok raw := by
  rw [decodeDescriptor, componentsFrame_eq_ok_iff]
  constructor
  · intro h
    split_ifs at h with hstart
    dsimp only at h
    split_ifs at h with hshort
    rw [Bool.not_eq_false, List.isPrefixOf_iff_prefix] at hstart
    obtain ⟨bytes, rfl⟩ := hstart
    obtain ⟨hdrop, hlt⟩ := drop_eq_be64_append (Nat.not_lt.mp hshort)
    obtain ⟨rest, hrest, hframed, rfl⟩ :=
      (decodeDescriptorLoop_eq_some_iff (Nat.not_lt.mp hshort)).mp h
    rw [hrest]
    refine ⟨hlt, _, hframed, ?_⟩
    rw [← hdrop, List.drop_left]
  · rintro ⟨hlt, rest, hframed, rfl⟩
    obtain ⟨hcount, hdrop, hshort⟩ := unpackQ_take_of_drop hlt
      (List.drop_left : (descriptorPrefix ++ (be64 components.length ++ rest)).drop
        descriptorPrefix.length = _)
    have hstart : descriptorPrefix.isPrefixOf
        (descriptorPrefix ++ (be64 components.length ++ rest)) = true :=
      List.isPrefixOf_iff_prefix.mpr (List.prefix_append _ _)
    rw [if_neg (by rw [hstart]; decide)]
    dsimp only
    rw [if_neg (by omega), hcount]
    exact (decodeDescriptorLoop_eq_some_iff hshort).mpr
      ⟨components, rfl, hdrop.symm ▸ hframed, (List.nil_append _).symm⟩

/-- **The descriptor determines the fields.** -/
theorem descriptorFrame_inj {fields fields' : List PyStr} {raw : Bytes}
    (h : descriptorFrame fields = .ok raw) (h' : descriptorFrame fields' = .ok raw) :
    fields = fields' := by
  have hdecoded := decodeDescriptor_eq_some_iff.mpr h
  rw [decodeDescriptor_eq_some_iff.mpr h'] at hdecoded
  exact (List.cons.inj (List.cons.inj (Option.some.inj hdecoded)).2).2.symm

/-! ## Registering -/

namespace VersionRegistry

variable [Hashlib]

theorem knows_new : new.knows fingerprint = true := by
  rw [knows, new]
  exact congrArg Option.isSome (if_pos rfl)

/-- The registry after a call of `register`; one that raised has changed nothing. -/
def afterRegister (registry : VersionRegistry) (fields : List PyStr) : VersionRegistry :=
  match registry.register fields with
  | .ok (_, after) => after
  | .error _ => registry

/-- **One call keeps what is known**, and the encodings. -/
theorem afterRegister_keeps (registry : VersionRegistry) (fields : List PyStr) {fp : PyStr}
    {known : List PyStr} (h : registry.schemas fp = some known) :
    (registry.afterRegister fields).schemas fp = some known ∧
      (registry.afterRegister fields).encoding = registry.encoding := by
  rw [afterRegister]
  rcases hregister : registry.register fields with e | ⟨fp', after⟩
  · exact ⟨h, rfl⟩
  · rw [register] at hregister
    split at hregister
    · cases hregister
    · next name _ =>
        obtain ⟨-, rfl⟩ := Prod.mk.inj (Except.ok.inj hregister)
        refine ⟨?_, rfl⟩
        by_cases heq : fp = name
        · subst heq
          exact (Function.update_self ..).trans (by rw [h]; rfl)
        · exact (Function.update_of_ne heq ..).trans h

/-- Registering one schema after another. -/
def registerAll (registry : VersionRegistry) (calls : List (List PyStr)) : VersionRegistry :=
  calls.foldl afterRegister registry

/-- **No sequence of calls changes what is known.** -/
theorem registerAll_keeps (registry : VersionRegistry) (calls : List (List PyStr)) {fp : PyStr}
    {known : List PyStr} (h : registry.schemas fp = some known) :
    (registry.registerAll calls).schemas fp = some known ∧
      (registry.registerAll calls).encoding = registry.encoding := by
  induction calls generalizing registry with
  | nil => exact ⟨h, rfl⟩
  | cons fields calls ih =>
      obtain ⟨hfields, hencoding⟩ := afterRegister_keeps registry fields h
      obtain ⟨hfields', hencoding'⟩ := ih (registry.afterRegister fields) hfields
      exact ⟨hfields', hencoding'.trans hencoding⟩

theorem encoderFor_registerAll (registry : VersionRegistry) (calls : List (List PyStr))
    {fp : PyStr} {known : List PyStr} (h : registry.schemas fp = some known) :
    (registry.registerAll calls).encoderFor fp = registry.encoderFor fp := by
  obtain ⟨hfields, hencoding⟩ := registerAll_keeps registry calls h
  rw [encoderFor, encoderFor, hfields, h, hencoding]

end VersionRegistry

variable [Hashlib]

/-- **The descriptor codec is canonical**: what is decoded is what was framed, the frame
determines the fields, its digest is their fingerprint, and what a fingerprint means never
changes. -/
theorem descriptor_canonical :
    (∀ (raw : Bytes) (components : List PyStr),
        decodeDescriptor raw = some components ↔ componentsFrame components = .ok raw) ∧
      (∀ (fields fields' : List PyStr) (raw : Bytes), descriptorFrame fields = .ok raw →
        descriptorFrame fields' = .ok raw → fields = fields') ∧
      (∀ fields : List PyStr, (descriptorFrame fields).map hexdigest = fingerprintFor fields) ∧
      ∀ (registry : VersionRegistry) (calls : List (List PyStr)) (fp : PyStr),
        registry.knows fp = true →
          (registry.registerAll calls).schemas fp = registry.schemas fp ∧
            (registry.registerAll calls).encoderFor fp = registry.encoderFor fp := by
  refine ⟨fun raw components => decodeDescriptor_eq_some_iff,
    fun fields fields' raw => descriptorFrame_inj, ?_, ?_⟩
  · intro fields
    rw [descriptorFrame_eq]
    rfl
  · intro registry calls fp hknown
    obtain ⟨known, hfields⟩ := Option.isSome_iff_exists.mp hknown
    exact ⟨(VersionRegistry.registerAll_keeps registry calls hfields).1.trans hfields.symm,
      VersionRegistry.encoderFor_registerAll registry calls hfields⟩

omit [Hashlib] in
/-- Registering a schema of one field does not touch the released one. -/
theorem descriptor_canonical_released :
    letI := Sha256.hashlib
    (VersionRegistry.new.registerAll [[str "seq"]]).schemas fingerprint
        = VersionRegistry.new.schemas fingerprint ∧
      (VersionRegistry.new.registerAll [[str "seq"]]).encoderFor fingerprint
        = VersionRegistry.new.encoderFor fingerprint := by
  let _ := Sha256.hashlib
  exact descriptor_canonical.2.2.2 VersionRegistry.new [[str "seq"]] fingerprint
    VersionRegistry.knows_new

end Waxseal
