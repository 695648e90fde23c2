/-
  Clarity/Ffi.lean
  ================
  **The C ABI of the core and its Dart wrapper** (`ffi/src/lib.rs`, `ffi/clarity.dart`),
  on a heap that both sides allocate from.

  Dart's `malloc` and Rust's boxes are different owners: what one allocated the other must
  not free.  Memory that Dart allocates has whatever was there (`Library.junk`).  Two
  blocks of one `try` are freed in the reverse order here; nothing depends on it.

    * `takeBuffer_fromVec` — a buffer that is handed over and taken leaves the heap alone;
    * one lemma for each wrapper, from its name and `_run`: what it computes and what it
      does to the heap.
-/
import Clarity.App
import Clarity.CatchUp
import Clarity.Heap
import Clarity.SafetyNumber
import Clarity.Storage

namespace Clarity

/-! ## 1. Blocks -/

/-- An owned byte buffer handed across the FFI boundary. -/
structure ClarityBuffer where
  ptr : Nat
  len : Nat

/-- `ClarityBuffer::null`: the operation failed. -/
def ClarityBuffer.null : ClarityBuffer := ⟨0, 0⟩

inductive Owner where
  | dart
  | rust
deriving DecidableEq

/-- What is allocated at an address. -/
inductive Block (P : Suite Bytes) where
  | bytes (owner : Owner) (data : Bytes)
  | cell (buffer : ClarityBuffer)
  | text (s : String)
  | account (a : Account P)
  | session (s : Session P)

namespace Block

variable {P : Suite Bytes}

/-- The first `len` bytes, where there are so many. -/
def slice? (len : Nat) : Block P → Option Bytes
  | .bytes _ data => if len ≤ data.length then some (data.take len) else none
  | _ => none

def key? : Block P → Option Bytes32
  | .bytes _ data => (Codec.bytes32.dec data).map Prod.fst
  | _ => none

/-- Room for a key. -/
def room? : Block P → Option (Owner × Bytes)
  | .bytes owner data => if 32 ≤ data.length then some (owner, data) else none
  | _ => none

def cell? : Block P → Option ClarityBuffer
  | .cell buffer => some buffer
  | _ => none

def text? : Block P → Option String
  | .text s => some s
  | _ => none

def account? : Block P → Option (Account P)
  | .account a => some a
  | _ => none

def session? : Block P → Option (Session P)
  | .session s => some s
  | _ => none

/-- What `malloc.free` may free. -/
def malloced? : Block P → Option Unit
  | .bytes .dart _ | .cell _ => some ()
  | _ => none

/-- What `Box::from_raw` may take back as a slice of `len` bytes. -/
def boxed? (len : Nat) : Block P → Option Unit
  | .bytes .rust data => if data.length = len then some () else none
  | _ => none

end Block

/-- What the native library and its callers use: the allocator, what fresh memory holds,
    the key formats, the hashes, and the JSON of a list of one-time prekeys. -/
structure Library (P : Suite Bytes) where
  allocator : Allocator (Block P)
  junk : Nat → Bytes
  length_junk : ∀ n, (junk n).length = n
  junkCell : ClarityBuffer
  keys : KeyCodecs P
  sha256 : Bytes → Bytes32
  sha512 : Bytes → Bytes64
  publicsJson : List (UInt32 × Bytes32) → Bytes

/-- A call across the boundary, or of the wrapper. -/
abbrev Ffi (P : Suite Bytes) (α : Type) := Native (Block P) Thrown α

/-! ## 2. The C ABI -/

namespace Ffi

open Native

variable {P : Suite Bytes} (L : Library P) {β : Type}

def asSlice (ptr len : Nat) : Ffi P Bytes :=
  if ptr = 0 then pure []
  else if len = 0 then pure []
  else load (Block.slice? len) ptr

/-- `ClarityBuffer::from_vec`; an empty vector has no block. -/
def fromVec (v : Bytes) : Ffi P ClarityBuffer :=
  if v = [] then pure ⟨1, 0⟩
  else do
    let ptr ← alloc L.allocator (.bytes .rust v)
    pure ⟨ptr, v.length⟩

def clarityBufferFree (buf : ClarityBuffer) : Ffi P Unit :=
  if buf.ptr = 0 then pure ()
  else if buf.len = 0 then pure ()
  else release (Block.boxed? buf.len) buf.ptr

def clarityStringFree (s : Nat) : Ffi P Unit :=
  if s = 0 then pure () else release Block.text? s

/-- `ptr.as_ref()` and `ptr.as_mut()`. -/
def asRef (view : Block P → Option β) (ptr : Nat) : Ffi P (Option β) :=
  if ptr = 0 then pure none
  else do
    let b ← load view ptr
    pure (some b)

/-- `ptr::copy_nonoverlapping(key, out, 32)`. -/
def writeKey (out : Nat) (key : Bytes32) : Ffi P Unit := do
  let (owner, data) ← load Block.room? out
  store Block.room? out (.bytes owner (key.bytes ++ data.drop 32))

/-- The functions that free a handle. -/
def freeHandle (view : Block P → Option β) (ptr : Nat) : Ffi P Unit :=
  if ptr = 0 then pure () else release view ptr

/-- The functions that read a handle and return bytes. -/
def readHandle (view : Block P → Option β) (f : β → Bytes) (ptr : Nat) : Ffi P ClarityBuffer := do
  match ← asRef view ptr with
  | some b => fromVec L (f b)
  | none => pure .null

/-- The functions that make a handle from bytes. -/
def makeHandle (parse : Bytes → Result β) (block : β → Block P) (ptr len : Nat) : Ffi P Nat := do
  match parse (← asSlice ptr len) with
  | .ok b => alloc L.allocator (block b)
  | .error _ => pure 0

def clarityAccountGenerate (rnd : Account.GenerateRandom P) : Ffi P Nat :=
  alloc L.allocator (.account (Account.generate rnd))

def clarityAccountFree : Nat → Ffi P Unit := freeHandle Block.account?

def clarityAccountSerialize : Nat → Ffi P ClarityBuffer :=
  readHandle L Block.account? (Account.toBytes L.keys)

def clarityAccountDeserialize : Nat → Nat → Ffi P Nat :=
  makeHandle L (Account.fromBytes L.keys) .account

def clarityAccountIdentityPublic (acct out : Nat) : Ffi P Unit := do
  match ← asRef Block.account? acct with
  | some a => if out = 0 then pure () else writeKey out a.identityPublic
  | none => pure ()

def clarityAccountBundleBase : Nat → Ffi P ClarityBuffer :=
  readHandle L Block.account? fun a => a.bundleBase.encode

def clarityAccountOneTimePublics : Nat → Ffi P ClarityBuffer :=
  readHandle L Block.account? fun a => L.publicsJson a.oneTimePrekeyPublics

def claritySessionInitiate (acct bundlePtr bundleLen : Nat) (rnd : Session.InitiateRandom P) :
    Ffi P Nat := do
  match ← asRef Block.account? acct with
  | none => pure 0
  | some account =>
    match PreKeyBundle.decode (← asSlice bundlePtr bundleLen) with
    | .error _ => pure 0
    | .ok bundle =>
      match Session.initiate account bundle rnd with
      | .ok s => alloc L.allocator (.session s)
      | .error _ => pure 0

def claritySessionRespond (acct msgPtr msgLen outPlaintext : Nat) (fresh : P.Secret) :
    Ffi P Nat := do
  if outPlaintext ≠ 0 then store Block.cell? outPlaintext (.cell .null)
  match ← asRef Block.account? acct with
  | none => pure 0
  | some account =>
    match Message.decode (← asSlice msgPtr msgLen) with
    | .error _ => pure 0
    | .ok message =>
      match Session.respond account fresh message with
      | (.error _, account) =>
        store Block.account? acct (.account account)
        pure 0
      | (.ok (session, plaintext), account) =>
        store Block.account? acct (.account account)
        if outPlaintext ≠ 0 then
          let buf ← fromVec L plaintext
          store Block.cell? outPlaintext (.cell buf)
        alloc L.allocator (.session session)

def claritySessionEncrypt (sess ptPtr ptLen : Nat) : Ffi P ClarityBuffer := do
  match ← asRef Block.session? sess with
  | none => pure .null
  | some s =>
    match s.encrypt (← asSlice ptPtr ptLen) with
    | (.ok msg, s) =>
      store Block.session? sess (.session s)
      fromVec L msg.encode
    | (.error _, s) =>
      store Block.session? sess (.session s)
      pure .null

def claritySessionDecrypt (sess msgPtr msgLen : Nat) (fresh : P.Secret) : Ffi P ClarityBuffer := do
  match ← asRef Block.session? sess with
  | none => pure .null
  | some s =>
    match Message.decode (← asSlice msgPtr msgLen) with
    | .error _ => pure .null
    | .ok message =>
      match s.decrypt fresh message with
      | (.ok pt, s) =>
        store Block.session? sess (.session s)
        fromVec L pt
      | (.error _, s) =>
        store Block.session? sess (.session s)
        pure .null

def claritySessionFree : Nat → Ffi P Unit := freeHandle Block.session?

def claritySessionSerialize : Nat → Ffi P ClarityBuffer :=
  readHandle L Block.session? (Session.serialize L.keys)

def claritySessionDeserialize : Nat → Nat → Ffi P Nat :=
  makeHandle L (Session.deserialize L.keys) .session

/-- `CString::new` fails on a text with a NUL in it. -/
def claritySafetyNumber (idA idB : Nat) : Ffi P Nat :=
  if idA = 0 ∨ idB = 0 then pure 0
  else do
    let a ← load Block.key? idA
    let b ← load Block.key? idB
    let number := safetyNumber L.sha512 a b
    if (number.toList.any fun c => c.toNat = 0) then pure 0
    else alloc L.allocator (.text number)

def clarityAccountOneTimeRemaining (acct : Nat) : Ffi P UInt32 := do
  match ← asRef Block.account? acct with
  | some a => pure (UInt32.ofNat a.oneTimePrekeysRemaining)
  | none => pure 0

def clarityAccountReplenishPrekeys (acct : Nat) (secrets : List P.Secret) : Ffi P Int32 := do
  match ← asRef Block.account? acct with
  | some a =>
    store Block.account? acct (.account (a.replenishOneTimePrekeys secrets))
    pure 0
  | none => pure (-1)

def clarityInboxId (identity : Nat) (epoch : UInt64) (out : Nat) : Ffi P Unit :=
  if identity = 0 ∨ out = 0 then pure ()
  else do
    let id ← load Block.key? identity
    writeKey out (inboxId L.sha256 id epoch)

def clarityBundleIdentityKeys (bundlePtr bundleLen outIdentityEd outIdentityDh : Nat) :
    Ffi P Int32 :=
  if outIdentityEd = 0 ∨ outIdentityDh = 0 then pure (-1)
  else do
    match PreKeyBundle.decode (← asSlice bundlePtr bundleLen) with
    | .error _ => pure (-1)
    | .ok bundle =>
      match verifyBundle P bundle with
      | .error _ => pure (-1)
      | .ok () =>
        writeKey outIdentityEd bundle.identityEd
        writeKey outIdentityDh bundle.identityDh
        pure 0

def claritySealEnvelope (acct recipientIdentityDh payloadPtr payloadLen : Nat) (eph : P.Secret) :
    Ffi P ClarityBuffer := do
  match ← asRef Block.account? acct with
  | none => pure .null
  | some account =>
    if recipientIdentityDh = 0 then pure .null
    else
      let dh ← load Block.key? recipientIdentityDh
      let payload ← asSlice payloadPtr payloadLen
      fromVec L (sealEnvelope account dh payload eph)

def clarityOpenEnvelope (acct blobPtr blobLen outSenderEd outSenderDh : Nat) :
    Ffi P ClarityBuffer := do
  match ← asRef Block.account? acct with
  | none => pure .null
  | some account =>
    if outSenderEd = 0 ∨ outSenderDh = 0 then pure .null
    else
      match openEnvelope account (← asSlice blobPtr blobLen) with
      | .ok opened =>
        writeKey outSenderEd opened.senderIdentityEd
        writeKey outSenderDh opened.senderIdentityDh
        fromVec L opened.payload
      | .error _ => pure .null

/-! ## 3. The Dart wrapper

An object of the wrapper is its native pointer, or nothing once it is disposed. -/

/-- The block of `_toNative`. -/
def toNative (data : Bytes) : Block P := .bytes .dart (if data = [] then L.junk 1 else data)

/-- A block of Dart's `malloc` for the time of a `try`. -/
def withBlock (block : Block P) (body : Nat → Ffi P β) : Ffi P β :=
  during L.allocator block Block.malloced? body

/-- `malloc<Uint8>(32)`. -/
def room : Block P := .bytes .dart (L.junk 32)

def takeBuffer (buf : ClarityBuffer) : Ffi P Bytes :=
  if buf.ptr = 0 then throw (.clarityException "native operation failed")
  else do
    let out ← asSlice buf.ptr buf.len
    clarityBufferFree buf
    pure out

/-- `_handle`. -/
def handle (disposed : String) : Option Nat → Ffi P Nat
  | some ptr => pure ptr
  | none => throw (.stateError disposed)

def accountHandle : Option Nat → Ffi P Nat := handle "Account already disposed"

def sessionHandle : Option Nat → Ffi P Nat := handle "Session already disposed"

/-- A null pointer is a failure. -/
def nonNull (message : String) (ptr : Nat) : Ffi P Nat :=
  if ptr = 0 then throw (.clarityException message) else pure ptr

def restoreSession (bytes : Bytes) : Ffi P Nat :=
  withBlock L (toNative L bytes) fun input => do
    nonNull "failed to restore session" (← claritySessionDeserialize L input bytes.length)

def restoreAccount (bytes : Bytes) : Ffi P Nat :=
  withBlock L (toNative L bytes) fun input => do
    nonNull "failed to restore account" (← clarityAccountDeserialize L input bytes.length)

def inboxIdOf (identity : Bytes) (epoch : UInt64) : Ffi P Bytes :=
  withBlock L (toNative L identity) fun id =>
    withBlock L (room L) fun out => do
      clarityInboxId L id epoch out
      asSlice out 32

def bundleKeys (bundle : Bytes) : Ffi P (Bytes × Bytes) :=
  withBlock L (toNative L bundle) fun input =>
    withBlock L (room L) fun outEd =>
      withBlock L (room L) fun outDh => do
        let rc ← clarityBundleIdentityKeys input bundle.length outEd outDh
        if rc ≠ 0 then throw (.clarityException "bundle rejected (bad signature or malformed)")
        let identityEd ← asSlice outEd 32
        let identityDh ← asSlice outDh 32
        pure (identityEd, identityDh)

def safetyNumberOf (idA idB : Bytes) : Ffi P String :=
  withBlock L (toNative L idA) fun a =>
    withBlock L (toNative L idB) fun b => do
      let s ← nonNull "safety number failed" (← claritySafetyNumber L a b)
      tryFinally (load Block.text? s) (clarityStringFree s)

def identityPublic (object : Option Nat) : Ffi P Bytes :=
  withBlock L (room L) fun out => do
    clarityAccountIdentityPublic (← accountHandle object) out
    asSlice out 32

def bundleBase (object : Option Nat) : Ffi P Bytes := do
  takeBuffer (← clarityAccountBundleBase L (← accountHandle object))

/-- `oneTimePublics`, up to the bytes that it decodes as JSON. -/
def oneTimePublics (object : Option Nat) : Ffi P Bytes := do
  takeBuffer (← clarityAccountOneTimePublics L (← accountHandle object))

def serializeAccount (object : Option Nat) : Ffi P Bytes := do
  takeBuffer (← clarityAccountSerialize L (← accountHandle object))

def initiate (object : Option Nat) (bundle : Bytes) (rnd : Session.InitiateRandom P) : Ffi P Nat :=
  withBlock L (toNative L bundle) fun input => do
    nonNull "bundle rejected (bad signature or malformed)"
      (← claritySessionInitiate L (← accountHandle object) input bundle.length rnd)

def respondToSession (object : Option Nat) (firstMessage : Bytes) (fresh : P.Secret) :
    Ffi P (Nat × Bytes) :=
  withBlock L (toNative L firstMessage) fun input =>
    withBlock L (.cell L.junkCell) fun outBuf => do
      let ptr ← nonNull "could not establish session from message"
        (← claritySessionRespond L (← accountHandle object) input firstMessage.length outBuf fresh)
      let plaintext ← takeBuffer (← load Block.cell? outBuf)
      pure (ptr, plaintext)

def oneTimeRemaining (object : Option Nat) : Ffi P UInt32 := do
  clarityAccountOneTimeRemaining (← accountHandle object)

def replenishOneTimePrekeys (object : Option Nat) (secrets : List P.Secret) : Ffi P Unit := do
  let rc ← clarityAccountReplenishPrekeys (← accountHandle object) secrets
  if rc ≠ 0 then throw (.clarityException "prekey replenishment failed")

def sealTo (object : Option Nat) (recipientIdentityDh payload : Bytes) (eph : P.Secret) :
    Ffi P Bytes :=
  withBlock L (toNative L recipientIdentityDh) fun dh =>
    withBlock L (toNative L payload) fun input => do
      takeBuffer (← claritySealEnvelope L (← accountHandle object) dh input payload.length eph)

/-- `openEnvelope`: the sender's two keys, and the payload. -/
def openSealed (object : Option Nat) (blob : Bytes) : Ffi P (Bytes × Bytes × Bytes) :=
  withBlock L (toNative L blob) fun input =>
    withBlock L (room L) fun outEd =>
      withBlock L (room L) fun outDh => do
        let payload ← takeBuffer
          (← clarityOpenEnvelope L (← accountHandle object) input blob.length outEd outDh)
        let senderEd ← asSlice outEd 32
        let senderDh ← asSlice outDh 32
        pure (senderEd, senderDh, payload)

def encrypt (object : Option Nat) (plaintext : Bytes) : Ffi P Bytes :=
  withBlock L (toNative L plaintext) fun input => do
    takeBuffer (← claritySessionEncrypt L (← sessionHandle object) input plaintext.length)

def decrypt (object : Option Nat) (message : Bytes) (fresh : P.Secret) : Ffi P Bytes :=
  withBlock L (toNative L message) fun input => do
    takeBuffer (← claritySessionDecrypt L (← sessionHandle object) input message.length fresh)

def serializeSession (object : Option Nat) : Ffi P Bytes := do
  takeBuffer (← claritySessionSerialize L (← sessionHandle object))

/-- `dispose`: freeing happens once. -/
def dispose (free : Nat → Ffi P Unit) : Option Nat → Ffi P Unit
  | some ptr => free ptr
  | none => pure ()

/-! ## 4. Buffers and arguments -/

variable {L} {h : Heap (Block P)} {p : Nat}

theorem fresh_ne_zero (L : Library P) (h : Heap (Block P)) : L.allocator.fresh h ≠ 0 := by
  have := L.allocator.two_le h
  omega

theorem asSlice_run {owner : Owner} {data : Bytes} {len : Nat} (hp : h[p]? = some (.bytes owner data))
    (h0 : p ≠ 0) (hlen : len ≤ data.length) : asSlice p len h = some (.ok (data.take len), h) := by
  unfold asSlice
  rw [if_neg h0]
  split
  · subst len
    rfl
  · exact load_run _ hp (by rw [Block.slice?, if_pos hlen])

theorem takeBuffer_run {data : Bytes} (hp : h[p]? = some (.bytes .rust data)) (h0 : p ≠ 0)
    (hdata : data ≠ []) : takeBuffer ⟨p, data.length⟩ h = some (.ok data, h.erase p) := by
  have hlen : data.length ≠ 0 := fun heq => hdata (List.length_eq_zero_iff.mp heq)
  have hslice := asSlice_run hp h0 (Nat.le_refl data.length)
  rw [List.take_length] at hslice
  have hboxed : Block.boxed? data.length (.bytes .rust data : Block P) = some () := if_pos rfl
  rw [takeBuffer, if_neg h0, bind_run hslice, clarityBufferFree, if_neg h0, if_neg hlen,
    bind_run (release_run _ hp hboxed)]
  rfl

/-- **A buffer that is handed over and taken** is a value; its block is gone. -/
theorem takeBuffer_fromVec (L : Library P) (v : Bytes) : fromVec L v >>= takeBuffer = pure v := by
  funext h
  unfold fromVec
  split
  · subst v
    rfl
  · rename_i hv
    have hget := Heap.get_insert_self h (L.allocator.fresh h) (Block.bytes .rust v : Block P)
    rw [bind_assoc, bind_run (alloc_run L.allocator _ h), pure_bind,
      takeBuffer_run hget (fresh_ne_zero L h) hv, Heap.erase_insert (L.allocator.unused h)]
    rfl

theorem fromVec_takeBuffer_bind (L : Library P) (v : Bytes) {γ : Type} (k : Bytes → Ffi P γ) :
    (fromVec L v >>= fun buf => takeBuffer buf >>= k) = k v := by
  rw [← bind_assoc, takeBuffer_fromVec]
  rfl

theorem asRef_run (view : Block P → Option β) {block : Block P} {b : β} (hp : h[p]? = some block)
    (hview : view block = some b) (h0 : p ≠ 0) : asRef view p h = some (.ok (some b), h) := by
  rw [asRef, if_neg h0, bind_run (load_run view hp hview)]
  rfl

/-- What a wrapper makes of the bytes of a handle. -/
theorem readHandle_run (view : Block P → Option β) {block : Block P} {b : β}
    (hp : h[p]? = some block) (hview : view block = some b) (h0 : p ≠ 0) (f : β → Bytes) :
    (readHandle L view f p >>= takeBuffer) h = some (.ok (f b), h) := by
  rw [readHandle, bind_assoc, bind_run (asRef_run view hp hview h0)]
  show (fromVec L (f b) >>= takeBuffer) h = _
  rw [takeBuffer_fromVec]
  rfl

theorem withBlock_run (block' : Block P) {block : Block P} {h' : Heap (Block P)}
    {body : Nat → Ffi P β} {r : Except Thrown β} (hfree : block'.malloced? = some ())
    (hunused : h'[L.allocator.fresh h]? = none)
    (hbody : body (L.allocator.fresh h) (h.insert (L.allocator.fresh h) block) =
      some (r, h'.insert (L.allocator.fresh h) block')) : withBlock L block body h = some (r, h') :=
  during_run hfree hunused hbody

theorem asSlice_toNative {data : Bytes} (hp : h[p]? = some (toNative L data)) (h0 : p ≠ 0) :
    asSlice p data.length h = some (.ok data, h) := by
  unfold toNative at hp
  split at hp
  · subst data
    rw [asSlice, if_neg h0]
    rfl
  · have hrun := asSlice_run hp h0 (Nat.le_refl data.length)
    rwa [List.take_length] at hrun

/-- The key that 32 bytes from the start of an argument are. -/
def keyOf (data : Bytes) : Option Bytes32 := (Codec.bytes32.dec data).map Prod.fst

theorem keyOf_eq_none {data : Bytes} : keyOf data = none ↔ data.length < 32 := by
  by_cases hlen : 32 ≤ data.length
  · have hdec : Codec.bytes32.dec data = some (_, data.drop 32) := dif_pos hlen
    simp [keyOf, hdec, hlen]
  · have hdec : Codec.bytes32.dec data = none := dif_neg hlen
    simp [keyOf, hdec]
    omega

theorem key_toNative (L : Library P) (data : Bytes) :
    Block.key? (toNative L data) = keyOf data := by
  unfold toNative
  split
  · subst data
    exact keyOf_eq_none.mpr (by rw [L.length_junk]; decide)
  · rfl

theorem writeKey_run {owner : Owner} {data : Bytes} (hp : h[p]? = some (.bytes owner data))
    (hlen : 32 ≤ data.length) (key : Bytes32) :
    writeKey p key h = some (.ok (), h.insert p (.bytes owner (key.bytes ++ data.drop 32))) := by
  have hroom : Block.room? (.bytes owner data : Block P) = some (owner, data) := if_pos hlen
  rw [writeKey, bind_run (load_run _ hp hroom)]
  exact store_run _ hp hroom

theorem asSlice_key {owner : Owner} {key : Bytes32} {rest : Bytes}
    (hp : h[p]? = some (.bytes owner (key.bytes ++ rest))) (h0 : p ≠ 0) :
    asSlice p 32 h = some (.ok key.bytes, h) := by
  have hrun := asSlice_run hp h0 (show 32 ≤ (key.bytes ++ rest).length by simp)
  rwa [List.take_append_of_le_length (by simp), List.take_of_length_le (by simp)] at hrun

/-! ## 5. Blocks of the wrapper -/

/-- What is allocated here is allocated there. -/
def Extends (h H : Heap (Block P)) : Prop :=
  ∀ (p : Nat) (block : Block P), h[p]? = some block → H[p]? = some block

theorem extends_insert {q : Nat} (hq : h[q]? = none) (block : Block P) :
    Extends h (h.insert q block) := by
  intro p v hp
  rw [Heap.get_insert_of_ne _ (Heap.ne_of_get hp hq).symm, hp]

/-- With a block of its own, a body uses one handle. -/
theorem withBlock_update (block : Block P) {γ : Type} {object after : Block P}
    {body : Nat → Ffi P γ} {r : Except Thrown γ} (hfree : block.malloced? = some ())
    (hp : h[p]? = some object)
    (hbody : ∀ q, ∀ H : Heap (Block P), q ≠ 0 → H[q]? = some block → H[p]? = some object →
      body q H = some (r, H.insert p after)) :
    withBlock L block body h = some (r, h.insert p after) := by
  have hne : p ≠ L.allocator.fresh h := Heap.ne_of_get hp (L.allocator.unused h)
  refine withBlock_run _ hfree ?_ ?_
  · rw [Heap.get_insert_of_ne _ hne]
    exact L.allocator.unused h
  · rw [hbody _ _ (fresh_ne_zero L h) (Heap.get_insert_self ..)
      (by rw [Heap.get_insert_of_ne _ hne.symm, hp]), Heap.insert_comm _ hne.symm]

/-- With a block of its own, a body changes that block at most. -/
theorem withBlock_keep (block : Block P) {body : Nat → Ffi P β} {r : Except Thrown β}
    (hbody : ∀ q, ∀ H : Heap (Block P), q ≠ 0 → H[q]? = some block → Extends h H →
      ∃ block', block'.malloced? = some () ∧ body q H = some (r, H.insert q block')) :
    withBlock L block body h = some (r, h) := by
  have hunused := L.allocator.unused h
  obtain ⟨block', hfree, hrun⟩ := hbody _ _ (fresh_ne_zero L h) (Heap.get_insert_self ..)
    (extends_insert hunused block)
  rw [Heap.insert_insert] at hrun
  exact withBlock_run _ hfree hunused hrun

theorem withBlock_throws {block : Block P} {body : Nat → Ffi P β} {e : Thrown}
    (hfree : block.malloced? = some ()) (hbody : ∀ q H, body q H = some (.error e, H)) :
    withBlock L block body h = some (.error e, h) := by
  refine withBlock_keep block ?_
  intro q H hq0 hq hext
  refine ⟨block, hfree, ?_⟩
  rw [hbody, Heap.insert_of_get hq]

/-- With a block of its own, a body makes a new one. -/
theorem withBlock_make (block : Block P) {body : Nat → Ffi P Nat} {made : Block P}
    (hfree : block.malloced? = some ())
    (hbody : ∀ q, ∀ H : Heap (Block P), q ≠ 0 → H[q]? = some block → Extends h H →
      body q H = some (.ok (L.allocator.fresh H), H.insert (L.allocator.fresh H) made)) :
    ∃ new, 2 ≤ new ∧ h[new]? = none ∧
      withBlock L block body h = some (.ok new, h.insert new made) := by
  have hunused := L.allocator.unused h
  have hself := Heap.get_insert_self h (L.allocator.fresh h) block
  have hrun := hbody _ _ (fresh_ne_zero L h) hself (extends_insert hunused block)
  set H := h.insert (L.allocator.fresh h) block with hH
  have hne : L.allocator.fresh h ≠ L.allocator.fresh H :=
    Heap.ne_of_get hself (L.allocator.unused H)
  have hnew : h[L.allocator.fresh H]? = none := by
    rw [← Heap.get_insert_of_ne h hne block]
    exact L.allocator.unused H
  refine ⟨_, L.allocator.two_le H, hnew, withBlock_run _ hfree ?_ ?_⟩
  · rw [Heap.get_insert_of_ne _ hne.symm, hunused]
  · rw [hrun, hH, Heap.insert_comm _ hne]

/-- Two rooms for keys, which a body fills or leaves alone. -/
theorem withRooms_keep {body : Nat → Nat → Ffi P β} {r : Except Thrown β}
    (hbody : ∀ ed dh, ∀ H : Heap (Block P), ed ≠ 0 → dh ≠ 0 → ed ≠ dh → H[ed]? = some (room L) →
      H[dh]? = some (room L) → Extends h H → body ed dh H = some (r, H) ∨
      ∃ keyEd keyDh : Bytes, body ed dh H = some (r, (H.insert ed (.bytes .dart keyEd)).insert dh
        (.bytes .dart keyDh))) :
    (withBlock L (room L) fun ed => withBlock L (room L) fun dh => body ed dh) h =
      some (r, h) := by
  refine withBlock_keep (room L) ?_
  intro ed H hed0 hed hext
  have hunused := L.allocator.unused H
  have hne : ed ≠ L.allocator.fresh H := Heap.ne_of_get hed hunused
  have hboth : Extends h (H.insert (L.allocator.fresh H) (room L)) :=
    fun p v hp => extends_insert hunused _ p v (hext p v hp)
  rcases hbody ed _ (H.insert (L.allocator.fresh H) (room L)) hed0 (fresh_ne_zero L H) hne
    (by rw [Heap.get_insert_of_ne _ hne.symm, hed]) (Heap.get_insert_self ..) hboth with
    hrun | ⟨keyEd, keyDh, hrun⟩
  · refine ⟨room L, rfl, ?_⟩
    rw [Heap.insert_of_get hed]
    exact withBlock_run _ rfl hunused hrun
  · have hfree : Block.malloced? (.bytes .dart keyDh : Block P) = some () := rfl
    refine ⟨.bytes .dart keyEd, rfl, withBlock_run _ hfree ?_ ?_⟩
    · rw [Heap.get_insert_of_ne _ hne, hunused]
    · rw [hrun, Heap.insert_comm _ hne.symm, Heap.insert_insert]

/-! ## 6. Sessions -/

/-- The exception for a null buffer. -/
def failed : Thrown := .clarityException "native operation failed"

/-- `Session.encrypt`, on the session itself. -/
def encryptValue (s : Session P) (plaintext : Bytes) : Except Thrown Bytes × Session P :=
  match s.encrypt plaintext with
  | (.ok m, s) => (.ok m.encode, s)
  | (.error _, s) => (.error failed, s)

def decryptValue (s : Session P) (message : Bytes) (fresh : P.Secret) :
    Except Thrown Bytes × Session P :=
  match Message.decode message with
  | .error _ => (.error failed, s)
  | .ok m =>
    match s.decrypt fresh m with
    | (.ok plaintext, s) => (.ok plaintext, s)
    | (.error _, s) => (.error failed, s)

variable {s : Session P} {a : Account P}


theorem encrypt_run (hp : h[p]? = some (.session s)) (h0 : p ≠ 0) (plaintext : Bytes) :
    encrypt L (some p) plaintext h =
      some ((encryptValue s plaintext).1, h.insert p (.session (encryptValue s plaintext).2)) := by
  refine withBlock_update (toNative L plaintext) rfl hp ?_
  intro q H hq0 hq hobj
  show (claritySessionEncrypt L p q plaintext.length >>= takeBuffer) H = _
  rw [claritySessionEncrypt, bind_assoc, bind_run (asRef_run Block.session? hobj rfl h0)]
  show (asSlice _ _ >>= _ >>= takeBuffer) H = _
  rw [bind_assoc, bind_run (asSlice_toNative hq hq0)]
  unfold encryptValue
  rcases s.encrypt plaintext with ⟨e | m, s'⟩
  · simp only
    rw [bind_assoc, bind_run (store_run Block.session? hobj rfl)]
    rfl
  · simp only
    rw [bind_assoc, bind_run (store_run Block.session? hobj rfl), takeBuffer_fromVec]
    rfl

theorem decrypt_run (hp : h[p]? = some (.session s)) (h0 : p ≠ 0) (message : Bytes)
    (fresh : P.Secret) :
    decrypt L (some p) message fresh h =
      some ((decryptValue s message fresh).1,
        h.insert p (.session (decryptValue s message fresh).2)) := by
  refine withBlock_update (toNative L message) rfl hp ?_
  intro q H hq0 hq hobj
  show (claritySessionDecrypt L p q message.length fresh >>= takeBuffer) H = _
  rw [claritySessionDecrypt, bind_assoc, bind_run (asRef_run Block.session? hobj rfl h0)]
  show (asSlice _ _ >>= _ >>= takeBuffer) H = _
  rw [bind_assoc, bind_run (asSlice_toNative hq hq0)]
  unfold decryptValue
  cases Message.decode message with
  | error e =>
    simp only [Heap.insert_of_get hobj]
    rfl
  | ok m =>
    simp only
    rcases s.decrypt fresh m with ⟨e | plaintext, s'⟩
    · simp only
      rw [bind_assoc, bind_run (store_run Block.session? hobj rfl)]
      rfl
    · simp only
      rw [bind_assoc, bind_run (store_run Block.session? hobj rfl), takeBuffer_fromVec]
      rfl

theorem serializeSession_run (hp : h[p]? = some (.session s)) (h0 : p ≠ 0) :
    serializeSession L (some p) h = some (.ok (s.serialize L.keys), h) :=
  readHandle_run Block.session? hp rfl h0 _

/-! ## 7. Accounts -/

theorem serializeAccount_run (hp : h[p]? = some (.account a)) (h0 : p ≠ 0) :
    serializeAccount L (some p) h = some (.ok (a.toBytes L.keys), h) :=
  readHandle_run Block.account? hp rfl h0 _

theorem bundleBase_run (hp : h[p]? = some (.account a)) (h0 : p ≠ 0) :
    bundleBase L (some p) h = some (.ok a.bundleBase.encode, h) :=
  readHandle_run Block.account? hp rfl h0 fun a : Account P => a.bundleBase.encode

theorem oneTimePublics_run (hp : h[p]? = some (.account a)) (h0 : p ≠ 0) :
    oneTimePublics L (some p) h = some (.ok (L.publicsJson a.oneTimePrekeyPublics), h) :=
  readHandle_run Block.account? hp rfl h0 fun a : Account P => L.publicsJson a.oneTimePrekeyPublics

theorem oneTimeRemaining_run (hp : h[p]? = some (.account a)) (h0 : p ≠ 0) :
    oneTimeRemaining (some p) h = some (.ok (UInt32.ofNat a.oneTimePrekeysRemaining), h) := by
  show clarityAccountOneTimeRemaining p h = _
  rw [clarityAccountOneTimeRemaining, bind_run (asRef_run Block.account? hp rfl h0)]
  rfl

theorem replenishOneTimePrekeys_run (hp : h[p]? = some (.account a)) (h0 : p ≠ 0)
    (secrets : List P.Secret) :
    replenishOneTimePrekeys (some p) secrets h =
      some (.ok (), h.insert p (.account (a.replenishOneTimePrekeys secrets))) := by
  show (clarityAccountReplenishPrekeys p secrets >>= _) h = _
  rw [clarityAccountReplenishPrekeys, bind_assoc, bind_run (asRef_run Block.account? hp rfl h0)]
  simp only
  rw [bind_assoc, bind_run (store_run Block.account? hp rfl)]
  rfl

theorem identityPublic_run (hp : h[p]? = some (.account a)) (h0 : p ≠ 0) :
    identityPublic L (some p) h = some (.ok a.identityPublic.bytes, h) := by
  refine withBlock_keep (room L) ?_
  intro q H hq0 hq hext
  have hlen : 32 ≤ (L.junk 32).length := Nat.le_of_eq (L.length_junk 32).symm
  refine ⟨.bytes .dart (a.identityPublic.bytes ++ (L.junk 32).drop 32), rfl, ?_⟩
  show (clarityAccountIdentityPublic p q >>= fun _ => asSlice q 32) H = _
  rw [clarityAccountIdentityPublic, bind_assoc,
    bind_run (asRef_run Block.account? (hext _ _ hp) rfl h0)]
  simp only [if_neg hq0]
  rw [bind_run (writeKey_run hq hlen a.identityPublic)]
  exact asSlice_key (Heap.get_insert_self ..) hq0

/-- `sealEnvelope`, for a recipient's key that is long enough. -/
theorem sealTo_run (hp : h[p]? = some (.account a)) (h0 : p ≠ 0) {recipientDh : Bytes}
    {dh : Bytes32} (hdh : keyOf recipientDh = some dh) (payload : Bytes) (eph : P.Secret) :
    sealTo L (some p) recipientDh payload eph h =
      some (.ok (sealEnvelope a dh payload eph), h) := by
  refine withBlock_keep (toNative L recipientDh) ?_
  intro q H hq0 hq hext
  refine ⟨toNative L recipientDh, rfl, ?_⟩
  rw [Heap.insert_of_get hq]
  refine withBlock_keep (toNative L payload) ?_
  intro q' H' hq0' hq' hext'
  refine ⟨toNative L payload, rfl, ?_⟩
  rw [Heap.insert_of_get hq']
  have hkey : Block.key? (toNative L recipientDh) = some dh := (key_toNative L recipientDh).trans hdh
  show (claritySealEnvelope L p q q' payload.length eph >>= takeBuffer) H' = _
  rw [claritySealEnvelope, bind_assoc,
    bind_run (asRef_run Block.account? (hext' _ _ (hext _ _ hp)) rfl h0)]
  simp only [if_neg hq0]
  rw [bind_assoc, bind_run (load_run Block.key? (hext' _ _ hq) hkey), bind_assoc,
    bind_run (asSlice_toNative hq' hq0'), takeBuffer_fromVec]
  rfl

/-- `openEnvelope`, on the account itself. -/
def openValue (a : Account P) (blob : Bytes) : Except Thrown (Bytes × Bytes × Bytes) :=
  match openEnvelope a blob with
  | .ok opened =>
    .ok (opened.senderIdentityEd.bytes, opened.senderIdentityDh.bytes, opened.payload)
  | .error _ => .error failed

theorem openSealed_run (hp : h[p]? = some (.account a)) (h0 : p ≠ 0) (blob : Bytes) :
    openSealed L (some p) blob h = some (openValue a blob, h) := by
  refine withBlock_keep (toNative L blob) ?_
  intro q H hq0 hq hext
  refine ⟨toNative L blob, rfl, ?_⟩
  rw [Heap.insert_of_get hq]
  refine withRooms_keep ?_
  intro ed dh H' hed0 hdh0 hne hed hdh hext'
  have hlen : 32 ≤ (L.junk 32).length := Nat.le_of_eq (L.length_junk 32).symm
  have hrooms : ¬ (ed = 0 ∨ dh = 0) := not_or.mpr ⟨hed0, hdh0⟩
  unfold openValue
  cases hopen : openEnvelope a blob with
  | error e =>
    left
    show (clarityOpenEnvelope L p q blob.length ed dh >>= _) H' = _
    rw [clarityOpenEnvelope, bind_assoc,
      bind_run (asRef_run Block.account? (hext' _ _ (hext _ _ hp)) rfl h0)]
    simp only [if_neg hrooms]
    rw [bind_assoc, bind_run (asSlice_toNative (hext' _ _ hq) hq0), hopen]
    rfl
  | ok opened =>
    have hdh' := Heap.get_insert_of_ne H' hne
      (.bytes .dart (opened.senderIdentityEd.bytes ++ (L.junk 32).drop 32) : Block P)
    rw [hdh] at hdh'
    have hed' := Heap.get_insert_of_ne
      (H'.insert ed (.bytes .dart (opened.senderIdentityEd.bytes ++ (L.junk 32).drop 32)))
      hne.symm (.bytes .dart (opened.senderIdentityDh.bytes ++ (L.junk 32).drop 32) : Block P)
    rw [Heap.get_insert_self] at hed'
    right
    refine ⟨opened.senderIdentityEd.bytes ++ (L.junk 32).drop 32,
      opened.senderIdentityDh.bytes ++ (L.junk 32).drop 32, ?_⟩
    show (clarityOpenEnvelope L p q blob.length ed dh >>= _) H' = _
    rw [clarityOpenEnvelope, bind_assoc,
      bind_run (asRef_run Block.account? (hext' _ _ (hext _ _ hp)) rfl h0)]
    simp only [if_neg hrooms]
    rw [bind_assoc, bind_run (asSlice_toNative (hext' _ _ hq) hq0), hopen]
    simp only
    rw [bind_assoc, bind_run (writeKey_run hed hlen _), bind_assoc,
      bind_run (writeKey_run hdh' hlen _), fromVec_takeBuffer_bind,
      bind_run (asSlice_key hed' hed0), bind_run (asSlice_key (Heap.get_insert_self ..) hdh0)]
    rfl

/-- `bundleIdentityKeys`, on the bytes. -/
theorem bundleKeys_run (L : Library P) (bundle : Bytes) (h : Heap (Block P)) :
    bundleKeys L bundle h =
      some ((bundleIdentityKeys P bundle).map fun keys => (keys.1.bytes, keys.2.bytes), h) := by
  refine withBlock_keep (toNative L bundle) ?_
  intro q H hq0 hq hext
  refine ⟨toNative L bundle, rfl, ?_⟩
  rw [Heap.insert_of_get hq]
  refine withRooms_keep ?_
  intro ed dh H' hed0 hdh0 hne hed hdh hext'
  have hlen : 32 ≤ (L.junk 32).length := Nat.le_of_eq (L.length_junk 32).symm
  have hrooms : ¬ (ed = 0 ∨ dh = 0) := not_or.mpr ⟨hed0, hdh0⟩
  have hslice := asSlice_toNative (hext' _ _ hq) hq0
  unfold bundleIdentityKeys clarityBundleIdentityKeys
  simp only [if_neg hrooms]
  cases hdecode : PreKeyBundle.decode bundle with
  | error e =>
    left
    rw [bind_assoc, bind_run hslice, hdecode]
    rfl
  | ok b =>
    simp only
    cases hverify : verifyBundle P b with
    | error e =>
      left
      rw [bind_assoc, bind_run hslice, hdecode]
      simp only [hverify]
      rfl
    | ok u =>
      have hdh' := Heap.get_insert_of_ne H' hne
        (.bytes .dart (b.identityEd.bytes ++ (L.junk 32).drop 32) : Block P)
      rw [hdh] at hdh'
      have hed' := Heap.get_insert_of_ne
        (H'.insert ed (.bytes .dart (b.identityEd.bytes ++ (L.junk 32).drop 32)))
        hne.symm (.bytes .dart (b.identityDh.bytes ++ (L.junk 32).drop 32) : Block P)
      rw [Heap.get_insert_self] at hed'
      right
      refine ⟨b.identityEd.bytes ++ (L.junk 32).drop 32,
        b.identityDh.bytes ++ (L.junk 32).drop 32, ?_⟩
      rw [bind_assoc, bind_run hslice, hdecode]
      simp only [hverify]
      rw [bind_assoc, bind_run (writeKey_run hed hlen _), bind_assoc,
        bind_run (writeKey_run hdh' hlen _)]
      show (asSlice ed 32 >>= _) _ = _
      rw [bind_run (asSlice_key hed' hed0), bind_run (asSlice_key (Heap.get_insert_self ..) hdh0)]
      rfl

theorem inboxIdOf_run {identity : Bytes} {id : Bytes32} (hid : keyOf identity = some id)
    (epoch : UInt64) (h : Heap (Block P)) :
    inboxIdOf L identity epoch h = some (.ok (inboxId L.sha256 id epoch).bytes, h) := by
  refine withBlock_keep (toNative L identity) ?_
  intro q H hq0 hq hext
  refine ⟨toNative L identity, rfl, ?_⟩
  rw [Heap.insert_of_get hq]
  refine withBlock_keep (room L) ?_
  intro out H' hout0 hout hext'
  have hkey : Block.key? (toNative L identity) = some id := (key_toNative L identity).trans hid
  have hlen : 32 ≤ (L.junk 32).length := Nat.le_of_eq (L.length_junk 32).symm
  refine ⟨.bytes .dart ((inboxId L.sha256 id epoch).bytes ++ (L.junk 32).drop 32), rfl, ?_⟩
  rw [clarityInboxId, if_neg (not_or.mpr ⟨hq0, hout0⟩), bind_assoc,
    bind_run (load_run Block.key? (hext' _ _ hq) hkey), bind_run (writeKey_run hout hlen _)]
  exact asSlice_key (Heap.get_insert_self ..) hout0

/-- A key that is too short is read past its end. -/
theorem inboxIdOf_undefined {identity : Bytes} (hid : keyOf identity = none) (epoch : UInt64)
    (h : Heap (Block P)) : inboxIdOf L identity epoch h = none := by
  have hkey : Block.key? (toNative L identity) = none := (key_toNative L identity).trans hid
  refine during_undefined (during_undefined ?_)
  set H := h.insert (L.allocator.fresh h) (toNative L identity)
  have hne : L.allocator.fresh H ≠ L.allocator.fresh h :=
    (Heap.ne_of_get (Heap.get_insert_self ..) (L.allocator.unused H)).symm
  have hget : (H.insert (L.allocator.fresh H) (room L))[L.allocator.fresh h]? =
      some (toNative L identity) := by
    rw [Heap.get_insert_of_ne _ hne, Heap.get_insert_self]
  rw [clarityInboxId, if_neg (not_or.mpr ⟨fresh_ne_zero L h, fresh_ne_zero L H⟩)]
  exact bind_undefined (bind_undefined (load_undefined hget hkey) _) _

theorem mem_intercalate {sep : List Char} {groups : List (List Char)} {c : Char}
    (hc : c ∈ sep.intercalate groups) : c ∈ sep ∨ ∃ g ∈ groups, c ∈ g := by
  induction groups using List.twoStepInduction with
  | nil => cases hc
  | singleton g =>
    rw [List.intercalate_singleton] at hc
    exact .inr ⟨g, List.mem_singleton_self g, hc⟩
  | cons_cons g g' gs _ ih =>
    rw [List.intercalate_cons_cons, List.mem_append, List.mem_append] at hc
    rcases hc with (hc | hc) | hc
    · exact .inr ⟨g, List.mem_cons_self, hc⟩
    · exact .inl hc
    · rcases ih g' hc with hsep | ⟨g'', hmem, hc⟩
      · exact .inl hsep
      · exact .inr ⟨g'', List.mem_cons_of_mem _ hmem, hc⟩

/-- A safety number is a C string: it is digits and spaces. -/
theorem safetyNumber_noNul (sha512 : Bytes → Bytes64) (a b : Bytes32) :
    ((safetyNumber sha512 a b).toList.any fun c => c.toNat = 0) = false := by
  rw [List.any_eq_false]
  intro c hc hnul
  rw [toList_safetyNumber] at hc
  rcases mem_intercalate hc with hsep | ⟨g, hg, hc⟩
  · rw [List.mem_singleton] at hsep
    subst hsep
    cases hnul
  · have hgroup : IsGroup g := by
      rcases List.mem_append.mp hg with hg | hg
      · exact (encodes_groups _).group g hg
      · exact (encodes_groups _).group g hg
    have hdigit := hgroup.2 c hc
    rw [Char.isDigit, Bool.and_eq_true, decide_eq_true_eq] at hdigit
    have hlow : 48 ≤ c.toNat := UInt32.le_iff_toNat_le.mp hdigit.1
    have hzero : c.toNat = 0 := of_decide_eq_true hnul
    omega

theorem safetyNumberOf_run {idA idB : Bytes} {a b : Bytes32} (ha : keyOf idA = some a)
    (hb : keyOf idB = some b) (h : Heap (Block P)) :
    safetyNumberOf L idA idB h = some (.ok (safetyNumber L.sha512 a b), h) := by
  refine withBlock_keep (toNative L idA) ?_
  intro q H hq0 hq hext
  refine ⟨toNative L idA, rfl, ?_⟩
  rw [Heap.insert_of_get hq]
  refine withBlock_keep (toNative L idB) ?_
  intro q' H' hq0' hq' hext'
  refine ⟨toNative L idB, rfl, ?_⟩
  rw [Heap.insert_of_get hq']
  have hkeyA : Block.key? (toNative L idA) = some a := (key_toNative L idA).trans ha
  have hkeyB : Block.key? (toNative L idB) = some b := (key_toNative L idB).trans hb
  have hs0 := fresh_ne_zero L H'
  have hs := Heap.get_insert_self H' (L.allocator.fresh H') (.text (safetyNumber L.sha512 a b))
  rw [claritySafetyNumber, if_neg (not_or.mpr ⟨hq0, hq0'⟩), bind_assoc,
    bind_run (load_run Block.key? (hext' _ _ hq) hkeyA), bind_assoc,
    bind_run (load_run Block.key? hq' hkeyB)]
  simp only [safetyNumber_noNul]
  rw [if_neg Bool.false_ne_true, bind_run (alloc_run L.allocator _ H'), nonNull,
    if_neg hs0, pure_bind]
  refine tryFinally_run (load_run Block.text? hs rfl) ?_
  rw [clarityStringFree, if_neg hs0, release_run Block.text? hs rfl,
    Heap.erase_insert (L.allocator.unused H')]

theorem safetyNumberOf_undefined {idA idB : Bytes} (hid : keyOf idA = none ∨ keyOf idB = none)
    (h : Heap (Block P)) : safetyNumberOf L idA idB h = none := by
  refine during_undefined (during_undefined ?_)
  set H := h.insert (L.allocator.fresh h) (toNative L idA)
  have hne : L.allocator.fresh H ≠ L.allocator.fresh h :=
    (Heap.ne_of_get (Heap.get_insert_self ..) (L.allocator.unused H)).symm
  have hgetA : (H.insert (L.allocator.fresh H) (toNative L idB))[L.allocator.fresh h]? =
      some (toNative L idA) := by
    rw [Heap.get_insert_of_ne _ hne, Heap.get_insert_self]
  have hgetB := Heap.get_insert_self H (L.allocator.fresh H) (toNative L idB)
  refine bind_undefined ?_ _
  rw [claritySafetyNumber, if_neg (not_or.mpr ⟨fresh_ne_zero L h, fresh_ne_zero L H⟩)]
  cases hkeyA : Block.key? (toNative L idA) with
  | none => exact bind_undefined (load_undefined hgetA hkeyA) _
  | some a =>
    rw [key_toNative] at hkeyA
    have hkeyB : Block.key? (toNative L idB) = none := by
      rw [key_toNative]
      rcases hid with hid | hid
      · rw [hid] at hkeyA
        cases hkeyA
      · exact hid
    rw [bind_run (load_run Block.key? hgetA ((key_toNative L idA).trans hkeyA))]
    exact bind_undefined (load_undefined hgetB hkeyB) _

theorem sealTo_undefined (hp : h[p]? = some (.account a)) (h0 : p ≠ 0) {recipientDh : Bytes}
    (hdh : keyOf recipientDh = none) (payload : Bytes) (eph : P.Secret) :
    sealTo L (some p) recipientDh payload eph h = none := by
  have hkey : Block.key? (toNative L recipientDh) = none :=
    (key_toNative L recipientDh).trans hdh
  refine during_undefined (during_undefined ?_)
  set H := h.insert (L.allocator.fresh h) (toNative L recipientDh) with hH
  have hne : L.allocator.fresh H ≠ L.allocator.fresh h :=
    (Heap.ne_of_get (Heap.get_insert_self ..) (L.allocator.unused H)).symm
  have hget : (H.insert (L.allocator.fresh H) (toNative L payload))[L.allocator.fresh h]? =
      some (toNative L recipientDh) := by
    rw [Heap.get_insert_of_ne _ hne, Heap.get_insert_self]
  have hobj : (H.insert (L.allocator.fresh H) (toNative L payload))[p]? = some (.account a) :=
    extends_insert (L.allocator.unused H) _ _ _ (extends_insert (L.allocator.unused h) _ _ _ hp)
  show (claritySealEnvelope L p _ _ payload.length eph >>= takeBuffer) _ = _
  refine bind_undefined ?_ _
  rw [claritySealEnvelope, bind_run (asRef_run Block.account? hobj rfl h0)]
  simp only [if_neg (fresh_ne_zero L h)]
  exact bind_undefined (load_undefined hget hkey) _

/-! ## 8. Objects that come and go -/

theorem free_run (view : Block P → Option β) {block : Block P} {b : β} (hp : h[p]? = some block)
    (hview : view block = some b) (h0 : p ≠ 0) :
    dispose (freeHandle view) (some p) h = some (.ok (), h.erase p) := by
  rw [dispose, freeHandle, if_neg h0, release_run view hp hview]

/-- What a null pointer says about bytes that are not an object. -/
def restored {β : Type} (message : String) (r : Result β) : Except Thrown β :=
  r.mapError fun _ => .clarityException message

/-- An object that is read back, in a block of its own. -/
theorem makeHandle_run {parse : Bytes → Result β} {bytes : Bytes} {b : β} (make : β → Block P)
    (message : String) (hparse : parse bytes = .ok b) (h : Heap (Block P)) :
    ∃ new, 2 ≤ new ∧ h[new]? = none ∧
      (withBlock L (toNative L bytes) fun input => do
        nonNull message (← makeHandle L parse make input bytes.length)) h =
      some (.ok new, h.insert new (make b)) := by
  refine withBlock_make (toNative L bytes) rfl ?_
  intro q H hq0 hq hext
  rw [makeHandle, bind_assoc, bind_run (asSlice_toNative hq hq0), hparse]
  show (nonNull message (L.allocator.fresh H)) _ = _
  rw [nonNull, if_neg (fresh_ne_zero L H)]
  rfl

theorem makeHandle_fails {parse : Bytes → Result β} {make : β → Block P} {bytes : Bytes}
    {message : String} {e : Error} (hparse : parse bytes = .error e) (h : Heap (Block P)) :
    (withBlock L (toNative L bytes) fun input => do
        nonNull message (← makeHandle L parse make input bytes.length)) h =
      some (.error (.clarityException message), h) := by
  refine withBlock_keep (toNative L bytes) ?_
  intro q H hq0 hq hext
  refine ⟨toNative L bytes, rfl, ?_⟩
  rw [Heap.insert_of_get hq, makeHandle, bind_assoc, bind_run (asSlice_toNative hq hq0), hparse]
  rfl

/-- `initiateSession`, which makes a session or leaves the heap alone. -/
theorem initiate_run (hp : h[p]? = some (.account a)) (h0 : p ≠ 0) {bundle : Bytes}
    {rnd : Session.InitiateRandom P} (hs : initiateSession a bundle rnd = .ok s) :
    ∃ new, 2 ≤ new ∧ h[new]? = none ∧
      initiate L (some p) bundle rnd h = some (.ok new, h.insert new (.session s)) := by
  refine withBlock_make (toNative L bundle) rfl ?_
  intro q H hq0 hq hext
  unfold initiateSession at hs
  show (claritySessionInitiate L p q bundle.length rnd >>= _) H = _
  rw [claritySessionInitiate, bind_assoc,
    bind_run (asRef_run Block.account? (hext _ _ hp) rfl h0)]
  simp only
  rw [bind_assoc, bind_run (asSlice_toNative hq hq0)]
  cases hdecode : PreKeyBundle.decode bundle with
  | error e =>
    rw [hdecode] at hs
    cases hs
  | ok b =>
    rw [hdecode] at hs
    simp only at hs ⊢
    cases hinit : Session.initiate a b rnd with
    | error e =>
      rw [hinit] at hs
      cases hs
    | ok s' =>
      rw [hinit] at hs
      obtain rfl := Except.ok.inj hs
      show (nonNull _ (L.allocator.fresh H)) _ = _
      rw [nonNull, if_neg (fresh_ne_zero L H)]
      rfl

theorem initiate_fails (hp : h[p]? = some (.account a)) (h0 : p ≠ 0) {bundle : Bytes}
    {rnd : Session.InitiateRandom P} {e : Thrown} (he : initiateSession a bundle rnd = .error e) :
    initiate L (some p) bundle rnd h = some (.error e, h) := by
  refine withBlock_keep (toNative L bundle) ?_
  intro q H hq0 hq hext
  refine ⟨toNative L bundle, rfl, ?_⟩
  unfold initiateSession at he
  show (claritySessionInitiate L p q bundle.length rnd >>= _) H = _
  rw [Heap.insert_of_get hq, claritySessionInitiate, bind_assoc,
    bind_run (asRef_run Block.account? (hext _ _ hp) rfl h0)]
  simp only
  rw [bind_assoc, bind_run (asSlice_toNative hq hq0)]
  cases hdecode : PreKeyBundle.decode bundle with
  | error e' =>
    rw [hdecode] at he
    obtain rfl := Except.error.inj he
    rfl
  | ok b =>
    rw [hdecode] at he
    simp only at he ⊢
    cases hinit : Session.initiate a b rnd with
    | error e' =>
      rw [hinit] at he
      obtain rfl := Except.error.inj he
      rfl
    | ok s' =>
      rw [hinit] at he
      cases he

/-- `respondToSession`, on the account itself: a session and what was sent with it, and the
    account without the prekey that was used. -/
def respondValue (a : Account P) (firstMessage : Bytes) (fresh : P.Secret) :
    Except Thrown (Session P × Bytes) × Account P :=
  match Message.decode firstMessage with
  | .error _ => (.error (.clarityException "could not establish session from message"), a)
  | .ok m =>
    match Session.respond a fresh m with
    | (.error _, a) => (.error (.clarityException "could not establish session from message"), a)
    | (.ok r, a) => (.ok r, a)

theorem respondToSession_fails (hp : h[p]? = some (.account a)) (h0 : p ≠ 0) {firstMessage : Bytes}
    {fresh : P.Secret} {e : Thrown} {a' : Account P}
    (hr : respondValue a firstMessage fresh = (.error e, a')) :
    respondToSession L (some p) firstMessage fresh h = some (.error e, h.insert p (.account a')) := by
  refine withBlock_update (toNative L firstMessage) rfl hp ?_
  intro q H hq0 hq hobj
  have hunused := L.allocator.unused H
  have hne : p ≠ L.allocator.fresh H := Heap.ne_of_get hobj hunused
  refine withBlock_run (.cell .null) rfl ?_ ?_
  · rw [Heap.get_insert_of_ne _ hne, hunused]
  · have hcell := Heap.get_insert_self H (L.allocator.fresh H) (.cell L.junkCell : Block P)
    have hobj' : (H.insert (L.allocator.fresh H) (.cell .null))[p]? = some (.account a) := by
      rw [Heap.get_insert_of_ne _ hne.symm, hobj]
    have hq' := extends_insert hunused (.cell .null) _ _ hq
    show (claritySessionRespond L p q firstMessage.length _ fresh >>= _) _ = _
    rw [claritySessionRespond]
    simp only [if_pos (fresh_ne_zero L H)]
    rw [bind_assoc, bind_run (store_run Block.cell? hcell rfl), Heap.insert_insert, bind_assoc,
      bind_run (asRef_run Block.account? hobj' rfl h0)]
    simp only
    rw [bind_assoc, bind_run (asSlice_toNative hq' hq0)]
    unfold respondValue at hr
    cases hdecode : Message.decode firstMessage with
    | error e' =>
      rw [hdecode] at hr
      obtain ⟨he, rfl⟩ := Prod.mk.inj hr
      obtain rfl := Except.error.inj he
      rw [Heap.insert_of_get hobj]
      rfl
    | ok m =>
      rw [hdecode] at hr
      simp only at hr ⊢
      rcases hrespond : Session.respond a fresh m with ⟨e' | r, a''⟩
      · rw [hrespond] at hr
        obtain ⟨he, rfl⟩ := Prod.mk.inj hr
        obtain rfl := Except.error.inj he
        simp only
        rw [bind_assoc, bind_run (store_run Block.account? hobj' rfl), Heap.insert_comm _ hne]
        rfl
      · rw [hrespond] at hr
        cases (Prod.mk.inj hr).1

/-- A buffer that is handed over, put in a cell and taken after one more allocation. -/
theorem outPlaintext_run {q : Nat} {buffer : ClarityBuffer}
    (hq : h[q]? = some (.cell buffer)) (plaintext : Bytes) (made : Block P) (message : String) :
    ∃ new buffer', 2 ≤ new ∧ new ≠ q ∧ h[new]? = none ∧
      (do
        let buf ← fromVec L plaintext
        store Block.cell? q (.cell buf)
        let ptr ← nonNull message (← alloc L.allocator made)
        let taken ← takeBuffer (← load Block.cell? q)
        pure (ptr, taken)) h =
      some (.ok (new, plaintext), (h.insert new made).insert q (.cell buffer')) := by
  unfold fromVec
  split
  · subst plaintext
    set H := h.insert q (.cell ⟨1, 0⟩) with hH
    have hcell : H[q]? = some (.cell ⟨1, 0⟩) := Heap.get_insert_self ..
    have hne : q ≠ L.allocator.fresh H := Heap.ne_of_get hcell (L.allocator.unused H)
    have hnew : h[L.allocator.fresh H]? = none := by
      rw [← Heap.get_insert_of_ne h hne (.cell ⟨1, 0⟩)]
      exact L.allocator.unused H
    have hcell' : (H.insert (L.allocator.fresh H) made)[q]? = some (.cell ⟨1, 0⟩) := by
      rw [Heap.get_insert_of_ne _ hne.symm, hcell]
    refine ⟨L.allocator.fresh H, ⟨1, 0⟩, L.allocator.two_le H, hne.symm, hnew, ?_⟩
    rw [pure_bind, bind_run (store_run Block.cell? hq rfl),
      bind_run (alloc_run L.allocator made H), nonNull,
      if_neg (fresh_ne_zero L H), pure_bind, bind_run (load_run Block.cell? hcell' rfl), hH,
      Heap.insert_comm _ hne]
    rfl
  · rename_i hv
    set b := L.allocator.fresh h with hb
    have hbh : h[b]? = none := L.allocator.unused h
    have hbq : q ≠ b := Heap.ne_of_get hq hbh
    set H := (h.insert b (.bytes .rust plaintext)).insert q (.cell ⟨b, plaintext.length⟩) with hH
    have hcell : H[q]? = some (.cell ⟨b, plaintext.length⟩) := Heap.get_insert_self ..
    have hbuf : H[b]? = some (.bytes .rust plaintext) := by
      rw [hH, Heap.get_insert_of_ne _ hbq, Heap.get_insert_self]
    have hneq : q ≠ L.allocator.fresh H := Heap.ne_of_get hcell (L.allocator.unused H)
    have hneb : b ≠ L.allocator.fresh H := Heap.ne_of_get hbuf (L.allocator.unused H)
    have hnew : h[L.allocator.fresh H]? = none := by
      rw [← Heap.get_insert_of_ne h hneb (.bytes .rust plaintext),
        ← Heap.get_insert_of_ne _ hneq (.cell ⟨b, plaintext.length⟩)]
      exact L.allocator.unused H
    refine ⟨L.allocator.fresh H, ⟨b, plaintext.length⟩, L.allocator.two_le H, hneq.symm, hnew, ?_⟩
    have hcell' : (H.insert (L.allocator.fresh H) made)[q]? = some (.cell ⟨b, plaintext.length⟩) := by
      rw [Heap.get_insert_of_ne _ hneq.symm, hcell]
    have hbuf' : (H.insert (L.allocator.fresh H) made)[b]? = some (.bytes .rust plaintext) := by
      rw [Heap.get_insert_of_ne _ hneb.symm, hbuf]
    have hcellNow : (h.insert b (.bytes .rust plaintext))[q]? = some (.cell buffer) := by
      rw [Heap.get_insert_of_ne _ hbq.symm, hq]
    have hheap : (H.insert (L.allocator.fresh H) made).erase b =
        (h.insert (L.allocator.fresh H) made).insert q (.cell ⟨b, plaintext.length⟩) := by
      apply Std.ExtTreeMap.ext_getElem?
      grind
    rw [bind_assoc, bind_run (alloc_run L.allocator _ h), pure_bind,
      bind_run (store_run Block.cell? hcellNow rfl),
      bind_run (alloc_run L.allocator made H), nonNull,
      if_neg (fresh_ne_zero L H), pure_bind, bind_run (load_run Block.cell? hcell' rfl),
      bind_run (takeBuffer_run hbuf' (fresh_ne_zero L h) hv), hheap]
    rfl

theorem respondToSession_run (hp : h[p]? = some (.account a)) (h0 : p ≠ 0) {firstMessage : Bytes}
    {fresh : P.Secret} {plaintext : Bytes} {a' : Account P}
    (hr : respondValue a firstMessage fresh = (.ok (s, plaintext), a')) :
    ∃ new, 2 ≤ new ∧ h[new]? = none ∧
      respondToSession L (some p) firstMessage fresh h =
        some (.ok (new, plaintext), (h.insert p (.account a')).insert new (.session s)) := by
  have hunused := L.allocator.unused h
  have hne : p ≠ L.allocator.fresh h := Heap.ne_of_get hp hunused
  set q := L.allocator.fresh h with hqdef
  set H := h.insert q (toNative L firstMessage) with hH
  have hq := Heap.get_insert_self h q (toNative L firstMessage)
  have hobj : H[p]? = some (.account a) := by
    rw [hH, Heap.get_insert_of_ne _ hne.symm, hp]
  have hunused' := L.allocator.unused H
  set c := L.allocator.fresh H with hcdef
  have hcq : q ≠ c := Heap.ne_of_get hq hunused'
  have hcp : p ≠ c := Heap.ne_of_get hobj hunused'
  have hcell := Heap.get_insert_self H c (.cell L.junkCell : Block P)
  have hobj' : (H.insert c (.cell .null))[p]? = some (.account a) := by
    rw [Heap.get_insert_of_ne _ hcp.symm, hobj]
  have hq' : (H.insert c (.cell .null))[q]? = some (toNative L firstMessage) := by
    rw [Heap.get_insert_of_ne _ hcq.symm, hq]
  have hcell' : ((H.insert c (.cell .null)).insert p (.account a'))[c]? =
      some (.cell .null : Block P) := by
    rw [Heap.get_insert_of_ne _ hcp, Heap.get_insert_self]
  obtain ⟨new, buffer, htwo, hnewc, hnew, hrun⟩ := outPlaintext_run (L := L) hcell' plaintext
    (.session s) "could not establish session from message"
  have hnewp : p ≠ new := Heap.ne_of_get (Heap.get_insert_self ..) hnew
  have hnewq : q ≠ new := Heap.ne_of_get (by
    rw [Heap.get_insert_of_ne _ hne, hq']) hnew
  refine ⟨new, htwo, ?_, ?_⟩
  · grind
  · refine withBlock_run (toNative L firstMessage) rfl ?_ ?_
    · grind
    · refine withBlock_run (.cell buffer) rfl ?_ ?_
      · grind
      · show (claritySessionRespond L p q firstMessage.length c fresh >>= _)
          (H.insert c (.cell L.junkCell)) = some (.ok (new, plaintext), (((h.insert p
            (.account a')).insert new (.session s)).insert q (toNative L firstMessage)).insert c
              (.cell buffer))
        have hc0 : c ≠ 0 := fresh_ne_zero L H
        unfold respondValue at hr
        rw [claritySessionRespond]
        simp only [if_pos hc0]
        rw [bind_assoc, bind_run (store_run Block.cell? hcell rfl), Heap.insert_insert, bind_assoc,
          bind_run (asRef_run Block.account? hobj' rfl h0)]
        simp only
        rw [bind_assoc, bind_run (asSlice_toNative hq' (fresh_ne_zero L h))]
        cases hdecode : Message.decode firstMessage with
        | error e =>
          rw [hdecode] at hr
          cases (Prod.mk.inj hr).1
        | ok m =>
          rw [hdecode] at hr
          simp only at hr ⊢
          rcases hrespond : Session.respond a fresh m with ⟨e | r, a''⟩
          · rw [hrespond] at hr
            cases (Prod.mk.inj hr).1
          · rw [hrespond] at hr
            obtain ⟨hok, rfl⟩ := Prod.mk.inj hr
            obtain rfl := Except.ok.inj hok
            have hheap : (((H.insert c (.cell .null)).insert p (.account a'')).insert new
                (.session s)).insert c (.cell buffer) =
                (((h.insert p (.account a'')).insert new (.session s)).insert q
                  (toNative L firstMessage)).insert c (.cell buffer) := by
              apply Std.ExtTreeMap.ext_getElem?
              grind
            simp only
            rw [bind_assoc, bind_run (store_run Block.account? hobj' rfl), ← hheap]
            simp only [Native.bind_assoc]
            exact hrun

end Ffi

end Clarity
