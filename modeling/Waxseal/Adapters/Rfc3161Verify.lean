import Waxseal.Base.GreedyWalk
import Waxseal.Base.Sha256
import Waxseal.Domain.Rfc3161
import Waxseal.Domain.Verdict

/-!
# The signature of a timestamp token

`adapters/rfc3161_verify.py`: who signed a token, whether the signature holds, and whether the
signer chains to an anchor the operator named.  The `cryptography` package is a parameter
(`Cryptography`); the labels are named rather than spelled out.

The chain search walks from the signer to the first certificate of the pool that issued it, and
so on, and never takes a step back.  A signer whose certificate two others of the pool issued can
be told not to chain although it does: exactly on such wrong turns (`chain_search_exact_iff`).
-/

namespace Waxseal

/-! ## The package -/

/-- What a call of the package can raise. -/
inductive PackageError where
  | invalidSignature
  | valueError
  | other
  deriving DecidableEq

/-- What the check uses of the `cryptography` package. -/
class Cryptography where
  Certificate : Type
  Key : Type
  /-- `x509.load_pem_x509_certificates`. -/
  loadPem : Bytes → Except PackageError (List Certificate)
  /-- `x509.load_der_x509_certificate`. -/
  loadDer : Bytes → Except PackageError Certificate
  /-- `cert.serial_number`. -/
  serialNumber : Certificate → ℤ
  /-- `cert.issuer.public_bytes()`. -/
  issuerBytes : Certificate → Except PackageError Bytes
  /-- `cert.public_key()`. -/
  publicKey : Certificate → Except PackageError Key
  /-- `public_key.verify(signature, data, PKCS1v15(), SHA256())`. -/
  verifyRsa : Key → Bytes → Bytes → Except PackageError Unit
  /-- `public_key.verify(signature, data, ECDSA(SHA256()))`. -/
  verifyEcdsa : Key → Bytes → Bytes → Except PackageError Unit
  /-- `cert.verify_directly_issued_by(issuer)`. -/
  verifyDirectlyIssuedBy : Certificate → Certificate → Except PackageError Unit

export Cryptography (Certificate)

/-! ## The answer -/

/-- Why a signature is invalid. -/
inductive InvalidLabel where
  | otherTstInfo
  | signature
  | noChain
  deriving DecidableEq

/-- Why a signature was not checked. -/
inductive UncheckedLabel where
  | noBundle
  | notInstalled
  | unreadableBundle
  | unreadableCms
  | signerInfos (count : ℕ)
  | noSignedAttributes
  | subjectKeyIdentifier
  | digestAlgorithm (oid : PyStr)
  | noSignerCertificate
  | noMessageDigest
  | signatureAlgorithm (oid : PyStr)
  /-- Any other exception. -/
  | raised
  deriving DecidableEq

/-- `SignatureCheck`. -/
inductive SignatureCheck where
  | valid
  | invalid (label : InvalidLabel)
  | unchecked (label : UncheckedLabel)
  deriving DecidableEq

/-- `SignatureCheck.verdict`. -/
def SignatureCheck.verdict : SignatureCheck → Verdict
  | .valid => .ok
  | .invalid _ => .broken
  | .unchecked _ => .unverifiable

/-- What leaves a step of the check: `_Unchecked`, or anything else. -/
inductive VerifyError where
  | unchecked (label : UncheckedLabel)
  | raised
  deriving DecidableEq

/-- A step whose exceptions reach the net. -/
def netted {ε α : Type} : Except ε α → Except VerifyError α
  | .ok a => .ok a
  | .error _ => .error .raised

/-! ## The CMS structure -/

/-- `_Cms`. -/
structure Cms where
  econtent : Bytes
  signedAttrsValue : Bytes
  signature : Bytes
  digestAlgOid : PyStr
  sigAlgOid : PyStr
  issuerDer : Bytes
  serial : ℤ
  certDers : List Bytes

/-- An element by its index. -/
def element (items : List Tlv) (i : ℕ) : Except PyErr Tlv :=
  match items[i]? with
  | none => .error .indexError
  | some item => .ok item

/-- `_tlv(c.tag, c.value)`. -/
def Tlv.encoded (item : Tlv) : Bytes := tlv item.tag item.value

/-- The certificates among the elements between the content and the signers. -/
def certDersOf : List Tlv → Except PyErr (List Bytes)
  | [] => .ok []
  | item :: items =>
      if item.tag = 0xA0 then do
        let certs ← readAll item.value
        return certs.map Tlv.encoded ++ (← certDersOf items)
      else certDersOf items

section Cms

variable [Interpreter]

/-- The first element of an `AlgorithmIdentifier`, read as an object identifier. -/
def algorithmOid (item : Tlv) : Except PyErr PyStr := do
  oid (← element (← sequence item) 0)

/-- What `_parse_cms_unguarded` reads before it looks at the signers: `SignedData`. -/
def parseSignedData (der : Bytes) : Except PyErr (List Tlv) := do
  let resp ← sequence (← readOne der)
  let contentInfo ← sequence (← element resp 1)
  sequence (← readOne (← element contentInfo 1).value)

/-- `eContent`. -/
def parseEcontent (signedData : List Tlv) : Except PyErr Bytes := do
  let encap ← sequence (← element signedData 2)
  let octets ← readOne (← element encap 1).value
  if octets.tag ≠ 0x04 then throw .valueError
  return octets.value

/-- The rest of `_parse_cms_unguarded`, of the one `SignerInfo`. -/
def parseSigner (signedData : List Tlv) (econtent : Bytes) (signer : List Tlv) (sid : Tlv) :
    Except PyErr Cms := do
  let issuerAndSerial ← sequence sid
  let issuer ← element issuerAndSerial 0
  let serial ← integer (← element issuerAndSerial 1)
  let certDers ← certDersOf ((signedData.drop 3).dropLast)
  return {
    econtent
    signedAttrsValue := (← element signer 3).value
    signature := (← element signer 5).value
    digestAlgOid := ← algorithmOid (← element signer 2)
    sigAlgOid := ← algorithmOid (← element signer 4)
    issuerDer := issuer.encoded
    serial
    certDers }

/-- An exception of the CMS parser: the structure is not one this build reads. -/
def unreadable {α : Type} : Except PyErr α → Except VerifyError α
  | .ok a => .ok a
  | .error _ => .error (.unchecked .unreadableCms)

/-- `_parse_cms`. -/
def parseCms (der : Bytes) : Except VerifyError Cms := do
  let signedData ← unreadable (parseSignedData der)
  let econtent ← unreadable (parseEcontent signedData)
  let signerInfos ← unreadable (readAll ((signedData.getLast?.map Tlv.value).getD []))
  match signerInfos with
  | [signerInfo] => do
      let signer ← unreadable (sequence signerInfo)
      if signer.length < 6 ∨ (signer[3]?.map Tlv.tag) ≠ some 0xA0 then
        throw (.unchecked .noSignedAttributes)
      let sid ← unreadable (element signer 1)
      if sid.tag ≠ 0x30 then throw (.unchecked .subjectKeyIdentifier)
      unreadable (parseSigner signedData econtent signer sid)
  | _ => throw (.unchecked (.signerInfos signerInfos.length))

/-- `_OID_MESSAGE_DIGEST`. -/
def oidMessageDigest : PyStr := str "1.2.840.113549.1.9.4"

/-- The messageDigest among the attributes. -/
def messageDigestIn : List Tlv → Except VerifyError Bytes
  | [] => .error (.unchecked .noMessageDigest)
  | attr :: attrs => do
      let parts ← netted (sequence attr)
      let attrType ← netted (do oid (← element parts 0))
      if attrType ≠ oidMessageDigest then messageDigestIn attrs
      else do
        let value ← netted (do readOne (← element parts 1).value)
        if value.tag ≠ 0x04 then throw (.unchecked .noMessageDigest)
        return value.value

/-- `_message_digest_attribute`. -/
def messageDigestAttribute (signedAttrsValue : Bytes) : Except VerifyError Bytes := do
  messageDigestIn (← netted (readAll signedAttrsValue))

end Cms

/-! ## The chain search -/

section Search

variable [Cryptography] {Obj : Type} [DecidableEq Obj]

/-- `_directly_issued_by`. -/
def directlyIssuedBy (cert issuer : Certificate) : Bool :=
  match Cryptography.verifyDirectlyIssuedBy cert issuer with
  | .ok () => true
  | .error _ => false

/-- A certificate object of the pool is directly issued by another one. -/
def issuedIn (certOf : Obj → Certificate) (cert issuer : Obj) : Bool :=
  directlyIssuedBy (certOf cert) (certOf issuer)

/-- A certificate object is directly issued by an anchor. -/
def anchored (certOf : Obj → Certificate) (anchors : List Certificate) (cert : Obj) : Bool :=
  anchors.any (directlyIssuedBy (certOf cert))

/-- `_chains_to_anchor`.  The pool holds objects, and visited are objects, not certificates. -/
def chainsToAnchor (certOf : Obj → Certificate) (leaf : Obj) (pool : List Obj)
    (anchors : List Certificate) : Bool :=
  walk (issuedIn certOf) (anchored certOf anchors) pool [leaf] leaf

/-- Some sequence of distinct certificates of the pool that starts at the leaf, each directly
issued by the next, ends in one that is directly issued by an anchor. -/
def ChainsToAnchor (certOf : Obj → Certificate) (leaf : Obj) (pool : List Obj)
    (anchors : List Certificate) : Prop :=
  ∃ chain : List Obj, (leaf :: chain).Nodup ∧ (∀ cert ∈ chain, cert ∈ pool) ∧
    (leaf :: chain).IsChain (fun cert issuer => issuedIn certOf cert issuer = true) ∧
    ∃ anchor ∈ anchors,
      directlyIssuedBy (certOf ((leaf :: chain).getLast (List.cons_ne_nil leaf chain))) anchor

/-- On the way from the leaf over each certificate's first issuer in the pool that is not yet on
the way, a certificate from which an anchor can be reached is left for one from which none can. -/
def TurnsWrong (certOf : Obj → Certificate) (leaf : Obj) (pool : List Obj)
    (anchors : List Certificate) : Prop :=
  WrongTurn (issuedIn certOf) (anchored certOf anchors) pool [leaf] leaf

variable {certOf : Obj → Certificate} {leaf : Obj} {pool : List Obj} {anchors : List Certificate}

omit [DecidableEq Obj] in
theorem chainsToAnchor_iff_reaches : ChainsToAnchor certOf leaf pool anchors ↔
    Reaches (issuedIn certOf) (anchored certOf anchors) pool [leaf] leaf := by
  apply exists_congr
  intro chain
  rw [anchored, List.any_eq_true]
  constructor
  · rintro ⟨hnodup, hpool, hchain, hanchor⟩
    refine ⟨hnodup, ?_, hchain, hanchor⟩
    intro cert hcert
    refine ⟨hpool cert hcert, ?_⟩
    rw [List.mem_singleton]
    rintro rfl
    exact (List.nodup_cons.mp hnodup).1 hcert
  · rintro ⟨hnodup, hpool, hchain, hanchor⟩
    exact ⟨hnodup, fun cert hcert => (hpool cert hcert).1, hchain, hanchor⟩

/-- The search is exact unless it turns wrong. -/
theorem chainsToAnchor_exact_iff :
    (chainsToAnchor certOf leaf pool anchors = true ↔ ChainsToAnchor certOf leaf pool anchors) ↔
      ¬ TurnsWrong certOf leaf pool anchors := by
  rw [chainsToAnchor_iff_reaches]
  exact walk_exact_iff (List.mem_singleton_self leaf)

theorem chainsToAnchor_sound (h : chainsToAnchor certOf leaf pool anchors = true) :
    ChainsToAnchor certOf leaf pool anchors :=
  chainsToAnchor_iff_reaches.mpr (reaches_of_walk (List.mem_singleton_self leaf) h)

/-- No turn is wrong where each certificate has at most one issuer in the pool. -/
theorem not_turnsWrong_of_unique
    (h : ∀ cert, ∀ issuer ∈ pool, ∀ issuer' ∈ pool, issuedIn certOf cert issuer = true →
      issuedIn certOf cert issuer' = true → issuer = issuer') :
    ¬ TurnsWrong certOf leaf pool anchors :=
  not_wrongTurn_of_unique h (List.mem_singleton_self leaf)

end Search

/-! ## The check -/

section Verify

variable [Interpreter] [Hashlib] [Cryptography]

/-- The anchors of the bundle; `none` is an operator who named none, and an error what reading
the file raised. -/
def readAnchors (installed : Bool) (caFile : Option (Except PyErr Bytes)) :
    Except VerifyError (List Certificate) :=
  match caFile with
  | none => .error (.unchecked .noBundle)
  | some bundle =>
      if installed = false then .error (.unchecked .notInstalled)
      else
        match bundle with
        | .error e =>
            if e = .osError ∨ e.isValueError = true then .error (.unchecked .unreadableBundle)
            else .error .raised
        | .ok pem =>
            match Cryptography.loadPem pem with
            | .ok anchors => .ok anchors
            | .error .valueError => .error (.unchecked .unreadableBundle)
            | .error _ => .error .raised

/-- The certificates of the token that can be read. -/
def loadPool : List Bytes → Except VerifyError (List Certificate)
  | [] => .ok []
  | der :: ders =>
      match Cryptography.loadDer der with
      | .ok cert => do return cert :: (← loadPool ders)
      | .error .valueError => loadPool ders
      | .error _ => .error .raised

/-- The first object of the pool that is the signer's certificate. -/
def findSigner (cms : Cms) (pool : List Certificate) :
    List (Fin pool.length) → Except VerifyError (Option (Fin pool.length))
  | [] => .ok none
  | cert :: certs =>
      if Cryptography.serialNumber (pool.get cert) = cms.serial then do
        let issuer ← netted (Cryptography.issuerBytes (pool.get cert))
        if issuer = cms.issuerDer then return some cert else findSigner cms pool certs
      else findSigner cms pool certs

/-- `_RSA_PKCS1_OIDS`. -/
def rsaPkcs1Oids : List PyStr := [str "1.2.840.113549.1.1.1", str "1.2.840.113549.1.1.11"]

/-- `_ECDSA_OIDS`. -/
def ecdsaOids : List PyStr := [str "1.2.840.10045.2.1", str "1.2.840.10045.4.3.2"]

/-- Whether the signature verifies under the key. -/
def signatureVerifies (cms : Cms) (key : Cryptography.Key) : Except VerifyError Bool :=
  let signedBytes := tlv 0x31 cms.signedAttrsValue
  let verified :=
    if cms.sigAlgOid ∈ rsaPkcs1Oids then
      some (Cryptography.verifyRsa key cms.signature signedBytes)
    else if cms.sigAlgOid ∈ ecdsaOids then
      some (Cryptography.verifyEcdsa key cms.signature signedBytes)
    else none
  match verified with
  | none => .error (.unchecked (.signatureAlgorithm cms.sigAlgOid))
  | some (.ok ()) => .ok true
  | some (.error .invalidSignature) => .ok false
  | some (.error _) => .error .raised

/-- What `_verify` says once it has the signer. -/
def checkSigner (cms : Cms) (pool : List Certificate) (signer : Fin pool.length)
    (anchors : List Certificate) : Except VerifyError SignatureCheck := do
  let digest ← messageDigestAttribute cms.signedAttrsValue
  if digest ≠ (sha256 cms.econtent).val then return .invalid .otherTstInfo
  else do
    let key ← netted (Cryptography.publicKey (pool.get signer))
    let verified ← signatureVerifies cms key
    if verified = false then return .invalid .signature
    else if chainsToAnchor pool.get signer (List.finRange pool.length) anchors = false then
      return .invalid .noChain
    else return .valid

/-- What `_verify` reads before it judges: the anchors, the structure, the pool and the signer. -/
def openToken (installed : Bool) (caFile : Option (Except PyErr Bytes)) (der : Bytes) :
    Except VerifyError (List Certificate × Cms × (pool : List Certificate) × Fin pool.length) := do
  let anchors ← readAnchors installed caFile
  let cms ← parseCms der
  if cms.digestAlgOid ≠ sha256Oid then throw (.unchecked (.digestAlgorithm cms.digestAlgOid))
  let pool ← loadPool cms.certDers
  match ← findSigner cms pool (List.finRange pool.length) with
  | none => throw (.unchecked .noSignerCertificate)
  | some signer => return (anchors, cms, ⟨pool, signer⟩)

/-- `_verify`. -/
def verifyToken (installed : Bool) (caFile : Option (Except PyErr Bytes)) (der : Bytes) :
    Except VerifyError SignatureCheck := do
  let (anchors, cms, ⟨pool, signer⟩) ← openToken installed caFile der
  checkSigner cms pool signer anchors

/-- `verify_token_signature`. -/
def verifyTokenSignature (installed : Bool) (caFile : Option (Except PyErr Bytes)) (der : Bytes) :
    SignatureCheck :=
  match verifyToken installed caFile der with
  | .ok check => check
  | .error (.unchecked label) => .unchecked label
  | .error .raised => .unchecked .raised

/-- The token carries its signer's certificate, and its signature holds under it. -/
def SignedUnder (installed : Bool) (caFile : Option (Except PyErr Bytes)) (der : Bytes)
    (anchors : List Certificate) (pool : List Certificate) (signer : Fin pool.length) : Prop :=
  ∃ cms key, openToken installed caFile der = .ok (anchors, cms, ⟨pool, signer⟩) ∧
    messageDigestAttribute cms.signedAttrsValue = .ok (sha256 cms.econtent).val ∧
    Cryptography.publicKey (pool.get signer) = .ok key ∧ signatureVerifies cms key = .ok true

variable {installed : Bool} {caFile : Option (Except PyErr Bytes)} {der : Bytes}
  {anchors pool : List Certificate} {signer : Fin pool.length}

/-- A signature that holds is valid or not according to the chain search alone. -/
theorem verifyTokenSignature_of_signedUnder
    (h : SignedUnder installed caFile der anchors pool signer) :
    verifyTokenSignature installed caFile der =
      if chainsToAnchor pool.get signer (List.finRange pool.length) anchors = true then .valid
      else .invalid .noChain := by
  obtain ⟨cms, key, hopen, hdigest, hkey, hverified⟩ := h
  have hcheck : checkSigner cms pool signer anchors =
      .ok (if chainsToAnchor pool.get signer (List.finRange pool.length) anchors = true then .valid
        else .invalid .noChain) := by
    rw [checkSigner, hdigest]
    show (if _ ≠ _ then (_ : Except VerifyError SignatureCheck) else _) = _
    rw [if_neg (not_not.mpr rfl), hkey]
    show (signatureVerifies cms key >>= _) = _
    rw [hverified]
    cases chainsToAnchor pool.get signer (List.finRange pool.length) anchors <;> rfl
  have hverify : verifyToken installed caFile der = checkSigner cms pool signer anchors := by
    rw [verifyToken, hopen]
    rfl
  rw [verifyTokenSignature, hverify, hcheck]

end Verify

/-! ## A cross-signed intermediate -/

/-- Certificates 1 and 2 both issued certificate 0, and anchor 9 issued certificate 2. -/
@[reducible] def crossSigned : Cryptography where
  Certificate := ℕ
  Key := Unit
  loadPem := fun _ => .ok [9]
  loadDer := fun der => .ok (decodeUint (der.drop 2))
  serialNumber := fun cert => cert
  issuerBytes := fun _ => .ok (tlv 0x30 [])
  publicKey := fun _ => .ok ()
  verifyRsa := fun _ _ _ => .ok ()
  verifyEcdsa := fun _ _ _ => .ok ()
  verifyDirectlyIssuedBy := fun cert issuer =>
    if (cert, issuer) ∈ [(0, 1), (0, 2), (2, 9)] then .ok () else .error .invalidSignature

/-- A token signed by certificate 0 that carries these certificates in this order. -/
def tokenWith [Hashlib] (certs : List UInt8) : Bytes :=
  let sha256AlgId := tlv 0x30 (tlv 0x06 [0x60, 0x86, 0x48, 0x01, 0x65, 0x03, 0x04, 0x02, 0x01])
  let rsaAlgId := tlv 0x30 (tlv 0x06 [0x2A, 0x86, 0x48, 0x86, 0xF7, 0x0D, 0x01, 0x01, 0x01])
  let digest := tlv 0x30 (tlv 0x06 [0x2A, 0x86, 0x48, 0x86, 0xF7, 0x0D, 0x01, 0x09, 0x04] ++
    tlv 0x31 (tlv 0x04 (sha256 []).val))
  let signer := tlv 0x30 (tlv 0x02 [1] ++ tlv 0x30 (tlv 0x30 [] ++ tlv 0x02 [0]) ++ sha256AlgId ++
    tlv 0xA0 digest ++ rsaAlgId ++ tlv 0x04 [])
  let signedData := tlv 0x30 (tlv 0x02 [3] ++ tlv 0x31 [] ++
    tlv 0x30 (tlv 0x06 [0] ++ tlv 0xA0 (tlv 0x04 [])) ++
    tlv 0xA0 (certs.flatMap fun cert => tlv 0x30 [cert]) ++ tlv 0x31 signer)
  tlv 0x30 (tlv 0x30 [] ++ tlv 0x30 (tlv 0x06 [0] ++ tlv 0xA0 signedData))

-- With the certificates in another order the same signature is valid.
example :
    letI := Interpreter.plain
    letI := Sha256.hashlib
    letI := crossSigned
    verifyTokenSignature true (some (.ok [])) (tokenWith [0, 2, 1]) = .valid := by
  decide +kernel

end Waxseal
