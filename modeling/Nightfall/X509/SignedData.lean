import Nightfall.X509.Issuing
import Nightfall.X509.SignedPart

/-! Whether what the contract takes from a certificate was signed. The signature covers the
second TLV; the searches run over all of them, so an item that the signed part lacks is
taken from the unsigned bytes behind it. -/

namespace Nightfall.X509

open Contract Revert List Nat Option

variable (tlvs : List DecodedTlv) (isEndUser : Bool)

def identifierReads (arc : UInt8) : List ℕ :=
  [oidIndex tlvs (extensionOid arc) + 1]

def extensionReads (arc : UInt8) : List ℕ :=
  let i := oidIndex tlvs (extensionOid arc)
  if tlvs[i + 1]?.bind (·.octets.head?) = some 0x01 then [i + 1, i + 2] else [i + 1]

def dateReads : List ℕ :=
  [sequenceIndex tlvs 3 + 1, sequenceIndex tlvs 3 + 2]

def publicKeyReads : List ℕ :=
  [sequenceIndex tlvs 5 + 2, sequenceIndex tlvs 5 + 4]

def readPositions : List ℕ :=
  identifierReads tlvs 0x23 ++ identifierReads tlvs 0x0e ++ dateReads tlvs ++
    publicKeyReads tlvs ++ extensionReads tlvs 0x0f ++
    if isEndUser then extensionReads tlvs 0x25 ++ extensionReads tlvs 0x20 else []

def insideAt (index : ℕ) : Bool :=
  match tlvs[1]?, tlvs[index]? with
  | some signed, some tlv => decide (signed.start ≤ tlv.start ∧
      tlv.start + tlv.headerLength + tlv.length ≤ signed.start + signed.octets.length)
  | _, _ => false

def SignedOnly : Prop :=
  ∀ index ∈ readPositions tlvs isEndUser, insideAt tlvs index = true

instance decidableSignedOnly : Decidable (SignedOnly tlvs isEndUser) :=
  inferInstanceAs (Decidable (∀ index ∈ readPositions tlvs isEndUser, insideAt tlvs index = true))

def Levels.inOuter (change : ℕ) : Levels := ⟨1, #v[change, 0, 0, 0, 0]⟩

/-- The TLVs of the signed bytes alone, behind an empty one in the place of the outer
SEQUENCE. `limit` is where the outer SEQUENCE ends, if that is inside. -/
def signedTlvs (signed : ByteString) (limit : ℕ) : List DecodedTlv :=
  .blank :: signedFrom signed signed.length 0 (.inOuter limit)

def fitsAt (size : ℕ) (tlvs : List DecodedTlv) (index : ℕ) : Bool :=
  match tlvs[index]? with
  | some tlv => decide (tlv.start + tlv.headerLength + tlv.length ≤ size)
  | none => false

def Complete (signed : ByteString) (limit : ℕ) (isEndUser : Bool) : Prop :=
  ∀ index ∈ readPositions (signedTlvs signed limit) isEndUser,
    fitsAt signed.length (signedTlvs signed limit) index = true

structure SameFacts (isEndUser : Bool) (left right : List DecodedTlv) : Prop where
  authority : extractAuthorityKeyIdentifier left = extractAuthorityKeyIdentifier right
  subject : extractSubjectKeyIdentifier left = extractSubjectKeyIdentifier right
  dates : ∀ timestamp, checkDates timestamp left = checkDates timestamp right
  publicKey : ∀ host, extractPublicKey host left = extractPublicKey host right
  keyUsage : ∀ mask, checkKeyUsage left mask = checkKeyUsage right mask
  extendedKeyUsage : isEndUser = true → ∀ oids group,
    checkExtendedKeyUsage left oids group = checkExtendedKeyUsage right oids group
  policies : isEndUser = true → ∀ oids group,
    checkCertificatePolicies left oids group = checkCertificatePolicies right oids group

section

variable {bound : ℕ} {left right : List DecodedTlv}

structure Agree (bound : ℕ) (left right : List DecodedTlv) : Prop where
  sequences : ∀ j, j < bound → left[j]?.map isSequenceAtDepth2 = right[j]?.map isSequenceAtDepth2
  oids : ∀ oid j, j + 1 < bound → left[j]?.map (isOidAtDepth5 oid) = right[j]?.map (isOidAtDepth5 oid)
  flags : ∀ j, j + 1 < bound → left[j + 1]?.bind (·.octets.head?) = right[j + 1]?.bind (·.octets.head?)

theorem mem_extensionReads (arc : UInt8) : oidIndex tlvs (extensionOid arc) + 1 ∈ extensionReads tlvs arc := by
  simp only [extensionReads]
  split <;> exact mem_cons_self

section

variable (agree : Agree bound left right)
include agree

theorem Agree.symm : Agree bound right left :=
  ⟨fun j small => (agree.sequences j small).symm, fun oid j small => (agree.oids oid j small).symm,
    fun j small => (agree.flags j small).symm⟩

theorem Agree.oidIndex_eq {oid : Word} (read : oidIndex left oid + 1 < bound) :
    oidIndex right oid = oidIndex left oid :=
  nthIndex_agree (fun j small => agree.oids oid j (lt_of_le_of_lt small read)) (lt_succ_self _)

theorem Agree.sequenceIndex_eq {wanted : ℕ} (read : sequenceIndex left wanted < bound) :
    sequenceIndex right wanted = sequenceIndex left wanted :=
  nthIndex_agree agree.sequences read

theorem Agree.identifierReads_eq {arc : UInt8} (reads : ∀ index ∈ identifierReads left arc, index < bound) :
    identifierReads right arc = identifierReads left arc := by
  have read := reads _ (mem_singleton.mpr rfl)
  rw [identifierReads, identifierReads, agree.oidIndex_eq read]

theorem Agree.extensionReads_eq {arc : UInt8} (reads : ∀ index ∈ extensionReads left arc, index < bound) :
    extensionReads right arc = extensionReads left arc := by
  have read := reads _ (mem_extensionReads left arc)
  simp only [extensionReads]
  rw [agree.oidIndex_eq read, agree.flags _ read]

theorem Agree.dateReads_eq (reads : ∀ index ∈ dateReads left, index < bound) : dateReads right = dateReads left := by
  have read := reads _ mem_cons_self
  rw [dateReads, dateReads, agree.sequenceIndex_eq (by omega)]

theorem Agree.publicKeyReads_eq (reads : ∀ index ∈ publicKeyReads left, index < bound) :
    publicKeyReads right = publicKeyReads left := by
  have read := reads _ mem_cons_self
  rw [publicKeyReads, publicKeyReads, agree.sequenceIndex_eq (by omega)]

theorem Agree.readPositions_eq {isEndUser : Bool} (reads : ∀ index ∈ readPositions left isEndUser, index < bound) :
    readPositions right isEndUser = readPositions left isEndUser := by
  simp only [readPositions, forall_mem_append] at reads
  obtain ⟨⟨⟨⟨⟨authority, subject⟩, dates⟩, publicKey⟩, keyUsage⟩, endUser⟩ := reads
  rw [readPositions, readPositions, agree.identifierReads_eq authority,
    agree.identifierReads_eq subject, agree.dateReads_eq dates, agree.publicKeyReads_eq publicKey,
    agree.extensionReads_eq keyUsage]
  cases isEndUser with
  | false => rfl
  | true =>
    simp only [if_true, forall_mem_append] at endUser ⊢
    rw [agree.extensionReads_eq endUser.1, agree.extensionReads_eq endUser.2]

end

theorem readPositions_pos : ∀ index ∈ readPositions tlvs isEndUser, ∃ j, index = j + 1 := by
  have extension : ∀ arc, ∀ index ∈ extensionReads tlvs arc, ∃ j, index = j + 1 := by
    intro arc index member
    simp only [extensionReads] at member
    split at member
    · obtain rfl | rfl : _ ∨ _ := by simpa using member
      · exact ⟨_, rfl⟩
      · exact ⟨_, rfl⟩
    · exact ⟨_, mem_singleton.mp member⟩
  simp only [readPositions, forall_mem_append, identifierReads, dateReads, publicKeyReads]
  refine ⟨⟨⟨⟨⟨by simp, by simp⟩, by simp⟩, by simp⟩, extension _⟩, ?_⟩
  cases isEndUser with
  | false => simp
  | true =>
    simp only [if_true, forall_mem_append]
    exact ⟨extension _, extension _⟩

end

section

variable {left right : List DecodedTlv}

def Shared (left right : List DecodedTlv) (index : ℕ) : Prop :=
  ∃ tlv other, left[index]? = some tlv ∧ right[index]? = some other ∧ tlv.tag = other.tag ∧
    tlv.value = other.value ∧ tlv.octets = other.octets

theorem Shared.lt {index : ℕ} (shared : Shared left right index) : index < right.length := by
  obtain ⟨_, _, _, found, _⟩ := shared
  exact (List.getElem?_eq_some_iff.mp found).1

theorem Shared.bind_readAt {β : Type} {index : ℕ} (shared : Shared left right index)
    {body other : DecodedTlv → Except String β}
    (agrees : ∀ tlv tlv', tlv.tag = tlv'.tag → tlv.value = tlv'.value → tlv.octets = tlv'.octets →
      body tlv = other tlv') : (readAt left index >>= body) = (readAt right index >>= other) := by
  obtain ⟨tlv, tlv', found, found', tag, value, octets⟩ := shared
  rw [(readAt_eq_ok _ _ _).mpr found, (readAt_eq_ok _ _ _).mpr found']
  exact agrees tlv tlv' tag value octets

theorem Shared.require_lt {index : ℕ} (shared : Shared left right (index + 1)) (message : String) :
    require (index < left.length) message = require (index < right.length) message := by
  obtain ⟨tlv, tlv', found, found', _⟩ := shared
  rw [require_pos (lt_of_succ_lt (List.getElem?_eq_some_iff.mp found).1),
    require_pos (lt_of_succ_lt (List.getElem?_eq_some_iff.mp found').1)]

variable (agree : Agree right.length right left) {arc : UInt8}
include agree

theorem identifierBytes_eq (shared : ∀ index ∈ identifierReads right arc, Shared left right index)
    (missing tooLong : String) :
    identifierBytes left arc missing tooLong = identifierBytes right arc missing tooLong := by
  have read := shared _ (mem_singleton.mpr rfl)
  simp only [identifierBytes, agree.oidIndex_eq read.lt]
  rw [read.require_lt]
  refine bind_congr fun _ => read.bind_readAt fun tlv tlv' _ value _ => ?_
  rw [value]

theorem extensionBytes_eq (shared : ∀ index ∈ extensionReads right arc, Shared left right index) (missing : String) :
    extensionBytes left arc missing = extensionBytes right arc missing := by
  have read := shared _ (mem_extensionReads right arc)
  have flagged : right[oidIndex right (extensionOid arc) + 1]?.bind (·.octets.head?) = some 0x01 →
      Shared left right (oidIndex right (extensionOid arc) + 2) := by
    intro critical
    exact shared _ (by simp [extensionReads, critical])
  simp only [extensionBytes, agree.oidIndex_eq read.lt]
  rw [read.require_lt]
  refine bind_congr fun _ => ?_
  obtain ⟨tlv, tlv', found, found', _, value, octets⟩ := read
  rw [(readAt_eq_ok _ _ _).mpr found, (readAt_eq_ok _ _ _).mpr found']
  change (readAt tlv.octets 0 >>= _) = (readAt tlv'.octets 0 >>= _)
  rw [octets, value]
  cases first : readAt tlv'.octets 0 with
  | error reason => rfl
  | ok byte =>
    by_cases critical : byte = 0x01
    · have reread := flagged (by
        rw [found', bind_some, List.head?_eq_getElem?, ← critical]
        exact (readAt_eq_ok _ _ _).mp first)
      subst critical
      exact reread.bind_readAt fun _ _ _ value _ => by rw [value]
    · change (if byte = 0x01 then _ else _) = (if byte = 0x01 then _ else _)
      rw [if_neg critical, if_neg critical]

theorem checkDates_eq (shared : ∀ index ∈ dateReads right, Shared left right index) (timestamp : ℕ) :
    checkDates timestamp left = checkDates timestamp right := by
  have read := shared _ mem_cons_self
  have behind := shared _ (mem_cons_of_mem _ mem_cons_self)
  simp only [checkDates, agree.sequenceIndex_eq (lt_of_succ_lt read.lt)]
  refine read.bind_readAt fun first first' tag value _ => ?_
  rw [tag, value]
  refine bind_congr fun _ => behind.bind_readAt fun second second' tag value _ => ?_
  rw [tag, value]

theorem extractPublicKey_eq (shared : ∀ index ∈ publicKeyReads right, Shared left right index) (host : Host) :
    extractPublicKey host left = extractPublicKey host right := by
  have read := shared _ mem_cons_self
  have behind := shared _ (mem_cons_of_mem _ mem_cons_self)
  simp only [extractPublicKey, agree.sequenceIndex_eq (lt_of_succ_lt (lt_of_succ_lt read.lt))]
  refine read.bind_readAt fun algorithm algorithm' _ value _ => ?_
  rw [value]
  refine bind_congr fun _ => behind.bind_readAt fun keyTlv keyTlv' _ value _ => ?_
  rw [value]

end

structure Mirrors (size : ℕ) (tlvs part : List DecodedTlv) : Prop where
  agree : Agree part.length tlvs part
  inside : ∀ j, insideAt tlvs (j + 1) = fitsAt size part (j + 1)
  shared : ∀ j, fitsAt size part (j + 1) = true → Shared tlvs part (j + 1)

theorem fitsAt_lt {size index : ℕ} {tlvs : List DecodedTlv} (fits : fitsAt size tlvs index = true) :
    index < tlvs.length := by
  rw [fitsAt] at fits
  split at fits
  · rename_i found
    exact (List.getElem?_eq_some_iff.mp found).1
  · cases fits

section

variable {size : ℕ} {tlvs part : List DecodedTlv} {isEndUser : Bool}

variable (mirrors : Mirrors size tlvs part)
include mirrors

theorem Mirrors.inside_eq {list : List DecodedTlv} {index : ℕ} (member : index ∈ readPositions list isEndUser) :
    insideAt tlvs index = fitsAt size part index := by
  obtain ⟨j, rfl⟩ := readPositions_pos list isEndUser index member
  exact mirrors.inside j

theorem Mirrors.signedOnly_iff :
    SignedOnly tlvs isEndUser ↔ ∀ index ∈ readPositions part isEndUser, fitsAt size part index = true := by
  constructor
  · intro signedOnly
    have fits : ∀ index ∈ readPositions tlvs isEndUser, fitsAt size part index = true := by
      intro index member
      rw [← mirrors.inside_eq member]
      exact signedOnly index member
    rw [mirrors.agree.readPositions_eq fun index member => fitsAt_lt (fits index member)]
    exact fits
  · intro fits index member
    rw [mirrors.agree.symm.readPositions_eq fun index member => fitsAt_lt (fits index member)] at member
    rw [mirrors.inside_eq member]
    exact fits index member

theorem Mirrors.sameFacts (complete : ∀ index ∈ readPositions part isEndUser, fitsAt size part index = true) :
    SameFacts isEndUser tlvs part := by
  have shared : ∀ index ∈ readPositions part isEndUser, Shared tlvs part index := by
    intro index member
    obtain ⟨j, rfl⟩ := readPositions_pos part isEndUser index member
    exact mirrors.shared j (complete _ member)
  have agree := mirrors.agree.symm
  simp only [readPositions, forall_mem_append] at shared
  obtain ⟨⟨⟨⟨⟨authority, subject⟩, dates⟩, publicKey⟩, keyUsage⟩, endUser⟩ := shared
  constructor
  · rw [extractAuthorityKeyIdentifier, extractAuthorityKeyIdentifier, identifierBytes_eq agree authority]
  · rw [extractSubjectKeyIdentifier, extractSubjectKeyIdentifier, identifierBytes_eq agree subject]
  · exact checkDates_eq agree dates
  · exact extractPublicKey_eq agree publicKey
  · intro mask
    rw [checkKeyUsage, checkKeyUsage, extensionBytes_eq agree keyUsage]
  · rintro rfl oids group
    simp only [if_true, forall_mem_append] at endUser
    rw [checkExtendedKeyUsage, checkExtendedKeyUsage, extensionBytes_eq agree endUser.1]
  · rintro rfl oids group
    simp only [if_true, forall_mem_append] at endUser
    rw [checkCertificatePolicies, checkCertificatePolicies, extensionBytes_eq agree endUser.2]

end

section

variable {origin size : ℕ} {outermost signed : DecodedTlv} {inner outer part : List DecodedTlv}

theorem sameTlv_at (outer : List DecodedTlv) (pairs : List.Forall₂ (SameTlv origin size) inner part) {j : ℕ}
    {other : DecodedTlv} (found : part[j]? = some other) :
    ∃ tlv, (inner ++ outer)[j]? = some tlv ∧ SameTlv origin size tlv other := by
  obtain ⟨bound, rfl⟩ := List.getElem?_eq_some_iff.mp found
  have here : j < inner.length := pairs.length_eq ▸ bound
  refine ⟨inner[j], ?_, pairs.get here bound⟩
  rw [List.getElem?_append_left here, List.getElem?_eq_getElem here]

variable (top : outermost.depth = 0) (pairs : List.Forall₂ (SameTlv origin size) inner part)
  (deep : (inner ++ outer).Pairwise fun tlv later => tlv.depth = 5 →
    tlv.start + tlv.headerLength + tlv.length ≤ later.start)
include top pairs deep

theorem agree_of_walk : Agree (part.length + 1) (outermost :: (inner ++ outer)) (.blank :: part) := by
  constructor
  · intro j small
    cases j with
    | zero => simp [isSequenceAtDepth2, top, DecodedTlv.blank]
    | succ j =>
      have found := List.getElem?_eq_getElem (lt_of_succ_lt_succ small)
      obtain ⟨tlv, here, same⟩ := sameTlv_at outer pairs found
      rw [List.getElem?_cons_succ, List.getElem?_cons_succ, here, found]
      simp [isSequenceAtDepth2, same.tag, same.depth]
  · intro oid j small
    cases j with
    | zero => simp [isOidAtDepth5, top, DecodedTlv.blank]
    | succ j =>
      have nextFound := List.getElem?_eq_getElem (lt_of_succ_lt_succ small)
      have found := List.getElem?_eq_getElem (lt_of_succ_lt (lt_of_succ_lt_succ small))
      obtain ⟨tlv, here, same⟩ := sameTlv_at outer pairs found
      obtain ⟨next, nextHere, nextSame⟩ := sameTlv_at outer pairs nextFound
      rw [List.getElem?_cons_succ, List.getElem?_cons_succ, here, found]
      -- a TLV at depth 5 ends before the next one starts, and that one has its header inside
      have content : tlv.depth = 5 → tlv.value = (part[j]).value := by
        intro isDeep
        obtain ⟨bound, isTlv⟩ := List.getElem?_eq_some_iff.mp here
        obtain ⟨nextBound, isNext⟩ := List.getElem?_eq_some_iff.mp nextHere
        have behind := pairwise_iff_getElem.mp deep j (j + 1) bound nextBound (lt_succ_self j)
        rw [isTlv, isNext] at behind
        have ends := behind isDeep
        rw [same.start, same.headerLength, same.length, nextSame.start] at ends
        have header := nextSame.headerInside
        exact (same.content (by omega)).1
      simp only [map_some, isOidAtDepth5, same.depth] at content ⊢
      by_cases isDeep : (part[j]).depth = 5
      · rw [content isDeep]
      · simp [isDeep]
  · intro j small
    have found := List.getElem?_eq_getElem (lt_of_succ_lt_succ small)
    obtain ⟨tlv, here, same⟩ := sameTlv_at outer pairs found
    rw [List.getElem?_cons_succ, List.getElem?_cons_succ, here, found, bind_some, bind_some, same.first]

theorem mirrors_of_walk (outside : ∀ tlv ∈ outer, origin + size < tlv.start + tlv.headerLength)
    (isSigned : (inner ++ outer)[0]? = some signed) (start : signed.start = origin)
    (length : signed.octets.length = size) :
    Mirrors size (outermost :: (inner ++ outer)) (.blank :: part) := by
  refine ⟨agree_of_walk top pairs deep, ?_, ?_⟩
  · intro j
    rw [insideAt, fitsAt, List.getElem?_cons_succ, List.getElem?_cons_succ, List.getElem?_cons_succ, isSigned]
    cases found : part[j]? with
    | some other =>
      obtain ⟨tlv, here, same⟩ := sameTlv_at outer pairs found
      rw [here]
      simp only [start, length, same.start, same.headerLength, same.length, decide_eq_decide]
      omega
    | none =>
      have beyond : inner.length ≤ j := by
        rw [pairs.length_eq]
        exact List.getElem?_eq_none_iff.mp found
      rw [List.getElem?_append_right beyond]
      cases later : outer[j - inner.length]? with
      | none => rfl
      | some tlv =>
        have past := outside tlv (mem_of_getElem? later)
        simp only [start, length, decide_eq_false_iff_not]
        omega
  · intro j fits
    rw [fitsAt, List.getElem?_cons_succ] at fits
    cases found : part[j]? with
    | none => rw [found] at fits; cases fits
    | some other =>
      obtain ⟨tlv, here, same⟩ := sameTlv_at outer pairs found
      rw [found, decide_eq_true_eq] at fits
      exact ⟨tlv, other, here, found, same.tag, (same.content fits).1, (same.content fits).2⟩

end

section

variable {certificate : ByteString} {tlvLength : ℕ} {tlvs : List DecodedTlv}

theorem walkFrom_of_signature {signature : ByteString} (walked : walkDerTree certificate 0 tlvLength = .ok tlvs)
    (found : getSignature tlvs tlvLength = .ok signature) : walkFrom certificate tlvLength 0 .top = .ok tlvs := by
  simp only [walkDerTree, bind_eq_ok, pure_eq_ok] at walked
  obtain ⟨filled, walked, rfl⟩ := walked
  simp only [getSignature, bind_eq_ok, require_eq_ok, readAt_eq_ok] at found
  obtain ⟨_, nonzero, signatureTlv, isLast, _, depth, _⟩ := found
  by_cases full : tlvLength ≤ filled.length
  · rwa [Nat.sub_eq_zero_of_le full, replicate_zero, append_nil]
  · rw [List.getElem?_append_right (by omega), List.getElem?_replicate] at isLast
    split at isLast
    · obtain rfl := some.inj isLast
      exact absurd depth (by decide)
    · cases isLast

theorem Levels.top_advance {tag : Tag} {length next : ℕ} {later : Levels}
    (advanced : Levels.top.advance tag length next = .ok later) (depth : later.depth = 1) (positive : 0 < next) :
    later = .inOuter (next + length) := by
  obtain ⟨entered, ⟨_, entering⟩ | ⟨_, rfl⟩, left⟩ := (Levels.advance_eq_ok _ _ _ _ _).mp advanced
  · obtain ⟨shallow, rfl⟩ := (Levels.enter_eq_ok _ _ _).mp entering
    obtain ⟨_, changes⟩ := (Levels.leave_eq_ok _ _ _).mp left
    exact congr (congrArg Levels.mk depth) changes
  · obtain ⟨folded, _⟩ := (Levels.leave_eq_ok _ _ _).mp left
    rw [foldlM_fixed] at folded
    · rw [← Except.ok.inj folded] at depth
      cases depth
    · intro change member
      have isZero : change = 0 := by simpa [Levels.top] using member
      rw [if_neg (by omega)]
      rfl

theorem shifted_inOuter (origin length size : ℕ) :
    Shifted origin size (.inOuter (origin + length)) (.inOuter (min length size)) := by
  refine ⟨rfl, ?_⟩
  intro i bound offset positive inside
  cases i with
  | zero =>
    change origin + offset = origin + length ↔ offset = min length size
    omega
  | succ i =>
    have zeros : ∀ change, (Levels.inOuter change).depthChangesAt[i + 1] = 0 := by
      intro change
      obtain rfl | rfl | rfl | rfl : i = 0 ∨ i = 1 ∨ i = 2 ∨ i = 3 := by omega
      all_goals rfl
    rw [zeros, zeros]
    omega

theorem mirrors_signed {origin length : ℕ} {rest : List DecodedTlv} {outermost signed : DecodedTlv}
    (top : outermost.depth = 0) (onward : Walks certificate origin (.inOuter (origin + length)) rest)
    (isSigned : rest[0]? = some signed) :
    Mirrors signed.octets.length (outermost :: rest)
      (signedTlvs signed.octets (min length signed.octets.length)) := by
  obtain ⟨header, isHeader, fits, rfl⟩ := onward.head isSigned
  obtain ⟨atLeast, _⟩ := getTlvHeader_bounds isHeader
  have deep := onward.deep
  have size : (header.tlv certificate origin 1).octets.length = header.headerLength + header.length :=
    slice_length (by omega)
  have frontSize : (certificate.take origin).length = origin := by
    rw [length_take]
    omega
  have parts := slice_split certificate origin (header.headerLength + header.length)
  have inParts : Walks (certificate.take origin ++ (header.tlv certificate origin 1).octets ++
      certificate.drop (origin + (header.headerLength + header.length))) origin (.inOuter (origin + length)) rest :=
    parts ▸ onward
  have shifted : Shifted (certificate.take origin).length (header.tlv certificate origin 1).octets.length
      (.inOuter (origin + length)) (.inOuter (min length (header.tlv certificate origin 1).octets.length)) := by
    rw [frontSize]
    exact shifted_inOuter _ _ _
  obtain ⟨inner, outer, rfl, pairs, outside⟩ :=
    @Walks.part _ _ _ _ _ _ inParts _ 0 _ frontSize.symm shifted (by omega) (le_add_left _ _)
  exact mirrors_of_walk top pairs deep outside isSigned frontSize.symm rfl

theorem mirrors_certificate {message : ByteString} (walks : Walks certificate 0 .top tlvs)
    (found : getMessage tlvs = .ok message) : ∃ outermost signed, tlvs[0]? = some outermost ∧ tlvs[1]? = some signed ∧
      message = signed.octets ∧ Mirrors signed.octets.length tlvs
        (signedTlvs signed.octets (min outermost.length signed.octets.length)) := by
  simp only [getMessage, bind_eq_ok, require_eq_ok, pure_eq_ok, readAt_eq_ok] at found
  obtain ⟨signed, isSigned, _, depth, _, _, rfl⟩ := found
  cases walks with
  | done => cases isSigned
  | next _ header isHeader fits advanced onward =>
    obtain ⟨atLeast, _⟩ := getTlvHeader_bounds isHeader
    have farther := header.next_ge 0
    obtain ⟨_, _, _, isHead⟩ := onward.head isSigned
    rw [isHead] at depth
    obtain rfl := Levels.top_advance advanced depth (by omega)
    exact ⟨_, signed, rfl, isSigned, rfl, mirrors_signed rfl onward isSigned⟩

end

theorem SameFacts.trans_symm {isEndUser : Bool} {left right part : List DecodedTlv}
    (facts : SameFacts isEndUser left part) (others : SameFacts isEndUser right part) :
    SameFacts isEndUser left right where
  authority := facts.authority.trans others.authority.symm
  subject := facts.subject.trans others.subject.symm
  dates := fun timestamp => (facts.dates timestamp).trans (others.dates timestamp).symm
  publicKey := fun host => (facts.publicKey host).trans (others.publicKey host).symm
  keyUsage := fun mask => (facts.keyUsage mask).trans (others.keyUsage mask).symm
  extendedKeyUsage := fun isEndUser oids group =>
    (facts.extendedKeyUsage isEndUser oids group).trans (others.extendedKeyUsage isEndUser oids group).symm
  policies := fun isEndUser oids group =>
    (facts.policies isEndUser oids group).trans (others.policies isEndUser oids group).symm

structure Accepted (args : CertificateArgs) (tlvs : List DecodedTlv) (outermost signed : DecodedTlv) : Prop where
  validated : ∃ host call state next, validateCertificate host call state args = .ok next
  walked : walkDerTree args.certificate 0 args.tlvLength = .ok tlvs
  isOutermost : tlvs[0]? = some outermost
  isSigned : tlvs[1]? = some signed

theorem mirrors_validated {host : Host} {call : Call} {state next : State} {args : CertificateArgs}
    (validated : validateCertificate host call state args = .ok next) :
    ∃ tlvs outermost signed, Accepted args tlvs outermost signed ∧ Mirrors signed.octets.length tlvs
        (signedTlvs signed.octets (min outermost.length signed.octets.length)) := by
  obtain ⟨update, assessed, _⟩ := (validateCertificate_eq_ok _ _ _ _ _).mp validated
  obtain ⟨_, cert, authentic, _⟩ := (assess_eq_ok _ _ _ _ _).mp assessed
  obtain ⟨outermost, signed, isOutermost, isSigned, _, mirrors⟩ := mirrors_certificate
    (walks_of_walkFrom (walkFrom_of_signature authentic.walked authentic.signature)) authentic.message
  exact ⟨cert.tlvs, outermost, signed,
    ⟨⟨host, call, state, next, validated⟩, authentic.walked, isOutermost, isSigned⟩, mirrors⟩

theorem Accepted.mirrors {args : CertificateArgs} {tlvs : List DecodedTlv}
    {outermost signed : DecodedTlv} (accepted : Accepted args tlvs outermost signed) :
    Mirrors signed.octets.length tlvs (signedTlvs signed.octets (min outermost.length signed.octets.length)) := by
  obtain ⟨host, call, state, next, validated⟩ := accepted.validated
  obtain ⟨tlvs', outermost', signed', accepted', mirrors⟩ := mirrors_validated validated
  obtain rfl := Except.ok.inj (accepted.walked.symm.trans accepted'.walked)
  obtain rfl := some.inj (accepted.isOutermost.symm.trans accepted'.isOutermost)
  obtain rfl := some.inj (accepted.isSigned.symm.trans accepted'.isSigned)
  exact mirrors

/-- An accepted certificate is read in its signed part only exactly when the signed bytes
alone hold all that is looked for. Then every other accepted certificate with these signed
bytes, whose outer SEQUENCE ends at the same place of them or behind them as this one's
does, leads to the same facts. -/
theorem signed_only_iff (host : Host) (call : Call) (state next : State) (args : CertificateArgs)
    (validated : validateCertificate host call state args = .ok next) :
    ∃ tlvs outermost signed, Accepted args tlvs outermost signed ∧ (SignedOnly tlvs args.isEndUser ↔
        Complete signed.octets (min outermost.length signed.octets.length) args.isEndUser) ∧
      ∀ args' tlvs' outermost' signed', Accepted args' tlvs' outermost' signed' → signed'.octets = signed.octets →
        min outermost'.length signed'.octets.length = min outermost.length signed.octets.length →
        SignedOnly tlvs args.isEndUser → SameFacts args.isEndUser tlvs tlvs' := by
  obtain ⟨tlvs, outermost, signed, accepted, mirrors⟩ := mirrors_validated validated
  refine ⟨tlvs, outermost, signed, accepted, mirrors.signedOnly_iff, ?_⟩
  intro args' tlvs' outermost' signed' accepted' sameOctets sameLimit signedOnly
  have complete := mirrors.signedOnly_iff.mp signedOnly
  have mirrors' := accepted'.mirrors
  rw [sameLimit, sameOctets] at mirrors'
  exact (mirrors.sameFacts complete).trans_symm (mirrors'.sameFacts complete)

theorem signed_only_iff_sample : ∃ tlvs outermost signed,
      Accepted (ToyFields.linking ⟨1, 2, "300101", 0x80⟩) tlvs outermost signed ∧
      (SignedOnly tlvs true ↔ Complete signed.octets (min outermost.length signed.octets.length) true) ∧
      ∀ args' tlvs' outermost' signed', Accepted args' tlvs' outermost' signed' → signed'.octets = signed.octets →
        min outermost'.length signed'.octets.length = min outermost.length signed.octets.length →
        SignedOnly tlvs true → SameFacts true tlvs tlvs' :=
  signed_only_iff toyHost (toyUser 1750000000) toyReady toyLinked
    (ToyFields.linking ⟨1, 2, "300101", 0x80⟩) toyLinked_step

def toyForgery (subject : UInt8) : CertificateArgs :=
  ⟨toyCertificate (ToyFields.signedPart ⟨1, 0, "300101", 0x80⟩ (ToyFields.extensions ⟨1, 0, "300101", 0x80⟩))
    (derTlv 0x30 (derTlv 0x30 (derTlv 0x30 (derExtension 0x0e (derTlv 0x04 [subject]))))),
    34, toyAddressSignature 0xB, true, false, 0, 0⟩

/-- The signed bytes and the signature are the same, and the user gets the key 2 or 4. -/
theorem unsigned_subject_key :
    validateCertificate toyHost (toyUser 1750000000) toyReady (toyForgery 2) = .ok (toyReady.link 0xB 2 1893456000) ∧
      validateCertificate toyHost (toyUser 1750000000) toyReady (toyForgery 4) =
        .ok (toyReady.link 0xB 4 1893456000) ∧ (walkDerTree (toyForgery 2).certificate 0 34).map
          (fun tlvs => (getMessage tlvs, getSignature tlvs 34)) =
        (walkDerTree (toyForgery 4).certificate 0 34).map (fun tlvs => (getMessage tlvs, getSignature tlvs 34)) ∧
      ∀ tlvs, walkDerTree (toyForgery 2).certificate 0 34 = .ok tlvs → ¬ SignedOnly tlvs true := by
  refine ⟨?_, ?_, by decide +kernel, ?_⟩
  · exact step_assess _ _ _ (show assess _ _ _ _ = .ok (.link 0xB 2 1893456000) by decide +kernel)
  · exact step_assess _ _ _ (show assess _ _ _ _ = .ok (.link 0xB 4 1893456000) by decide +kernel)
  · intro tlvs walked
    have read : (walkDerTree (toyForgery 2).certificate 0 34).map
        (fun tlvs => decide (SignedOnly tlvs true)) = .ok false := by decide +kernel
    rw [walked] at read
    exact of_decide_eq_false (Except.ok.inj read)

end Nightfall.X509
