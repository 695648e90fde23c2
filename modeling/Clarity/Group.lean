/-
  Clarity/Group.lean
  ==================
  **Group conversations** (`group/src/lib.rs`), on top of OpenMLS.

  OpenMLS is not in the repository, so the calls the crate makes are a parameter
  (`OpenMls`), and what they do to a group is described by an abstract view of it
  (`OpenMls.View`): a group is in an epoch, a commit is bound to the epoch it was made in,
  and merging it leads to the next one.

    * `addMember_cases`, `removeMember_cases` — a committer merges its own commit at once;
    * `process_commit` — a member takes a commit in the epoch it was made in;
    * `process_stale` — and in no other.
-/
import Clarity.Base

namespace Clarity

/-! ## 1. What the crate calls -/

inductive ProcessedMessageContent (StagedCommit : Type) where
  | applicationMessage (bytes : Bytes)
  | stagedCommitMessage (staged : StagedCommit)
  | proposalMessage
  | externalJoinProposalMessage

structure ProcessedMessage (ι StagedCommit : Type) where
  /-- The identity in the sender's credential. -/
  credential : ι
  content : ProcessedMessageContent StagedCommit

/-- The OpenMLS calls of the crate, for clients with the identities `ι`.  Calls on a group
    leave it in some state also when they fail; their errors are texts. -/
structure OpenMls (ι : Type) where
  MlsGroup : Type
  KeyPackageIn : Type
  KeyPackage : Type
  Message : Type
  Welcome : Type
  StagedCommit : Type
  validate : KeyPackageIn → Except String KeyPackage
  newWithGroupId : ι → Except String MlsGroup
  newFromWelcome : ι → Welcome → Except String MlsGroup
  members : MlsGroup → List (UInt32 × ι)
  addMembers : MlsGroup → KeyPackage → Except String (Message × Welcome) × MlsGroup
  removeMembers : MlsGroup → UInt32 → Except String Message × MlsGroup
  mergePendingCommit : MlsGroup → Except String Unit × MlsGroup
  createMessage : MlsGroup → Bytes → Except String Message × MlsGroup
  processMessage : MlsGroup → Message →
    Except String (ProcessedMessage ι StagedCommit) × MlsGroup
  mergeStagedCommit : MlsGroup → StagedCommit → Except String Unit × MlsGroup

/-! ## 2. The crate -/

/-- `group::Error`, of which these calls make one variant. -/
inductive GroupError where
  | mls (text : String)
deriving DecidableEq

/-- `mls(r)`. -/
def mls {α : Type} (r : Except String α) : Except GroupError α := r.mapError .mls

/-- What an inbound message turned out to be. -/
inductive GroupEvent (ι : Type) where
  | application (sender : ι) (plaintext : Bytes)
  | membershipChanged
  | proposal

namespace Group

variable {ι : Type} {M : OpenMls ι}

/-- `GroupClient::create_group`. -/
def createGroup (i : ι) : Except GroupError M.MlsGroup := mls (M.newWithGroupId i)

/-- `GroupClient::join_group`. -/
def joinGroup (i : ι) (welcome : M.Welcome) : Except GroupError M.MlsGroup :=
  mls (M.newFromWelcome i welcome)

/-- Identities of every current member. -/
def members (g : M.MlsGroup) : List ι := (M.members g).map Prod.snd

/-- The leaf index of the member with the given identity. -/
def memberIndex [DecidableEq ι] (g : M.MlsGroup) (identity : ι) : Option UInt32 :=
  (M.members g).findSome? fun m => if m.2 = identity then some m.1 else none

/-- Add a member; the change is merged into this group before returning. -/
def addMember (g : M.MlsGroup) (keyPackage : M.KeyPackageIn) :
    Except GroupError (M.Message × M.Welcome) × M.MlsGroup :=
  match M.validate keyPackage with
  | .error e => (.error (.mls e), g)
  | .ok kp =>
    match M.addMembers g kp with
    | (.error e, g) => (.error (.mls e), g)
    | (.ok (commit, welcome), g) =>
      match M.mergePendingCommit g with
      | (.error e, g) => (.error (.mls e), g)
      | (.ok (), g) => (.ok (commit, welcome), g)

/-- Remove the member at an index; merged locally before returning. -/
def removeMember (g : M.MlsGroup) (index : UInt32) :
    Except GroupError M.Message × M.MlsGroup :=
  match M.removeMembers g index with
  | (.error e, g) => (.error (.mls e), g)
  | (.ok commit, g) =>
    match M.mergePendingCommit g with
    | (.error e, g) => (.error (.mls e), g)
    | (.ok (), g) => (.ok commit, g)

/-- Encrypt an application message for the group. -/
def send (g : M.MlsGroup) (plaintext : Bytes) : Except GroupError M.Message × M.MlsGroup :=
  let out := M.createMessage g plaintext
  (mls out.1, out.2)

/-- Process an inbound message. -/
def process (g : M.MlsGroup) (message : M.Message) :
    Except GroupError (GroupEvent ι) × M.MlsGroup :=
  match M.processMessage g message with
  | (.error e, g) => (.error (.mls e), g)
  | (.ok processed, g) =>
    match processed.content with
    | .applicationMessage bytes => (.ok (.application processed.credential bytes), g)
    | .stagedCommitMessage staged =>
      match M.mergeStagedCommit g staged with
      | (.error e, g) => (.error (.mls e), g)
      | (.ok (), g) => (.ok .membershipChanged, g)
    | .proposalMessage | .externalJoinProposalMessage => (.ok .proposal, g)

end Group

/-! ## 3. An abstract view of OpenMLS -/

/-- A group as its members see it: whose copy it is and in which epoch it is.  A commit is
    bound to the epoch it was made in, only members make one, and merging it leads to the
    next epoch, in which the change is applied. -/
structure OpenMls.View {ι : Type} (M : OpenMls ι) where
  Epoch : Type
  number : Epoch → Nat
  roster : Epoch → List ι
  owner : M.MlsGroup → ι
  epoch : M.MlsGroup → Epoch
  IsCommit : M.Message → Prop
  base : M.Message → Epoch
  next : M.Message → Epoch
  committer : M.Message → ι
  newcomer : M.Welcome → ι
  welcomeEpoch : M.Welcome → Epoch
  holder : M.KeyPackage → ι
  /-- The group has not processed the message yet. -/
  Unread : M.MlsGroup → M.Message → Prop
  members_eq : ∀ g, (M.members g).map Prod.snd = roster (epoch g)
  newWithGroupId_ok : ∀ i g, M.newWithGroupId i = .ok g → owner g = i ∧ roster (epoch g) = [i]
  newFromWelcome_ok : ∀ w, ∃ g, M.newFromWelcome (newcomer w) w = .ok g ∧
    owner g = newcomer w ∧ epoch g = welcomeEpoch w
  addMembers_ok : ∀ g kp c w g₁, M.addMembers g kp = (.ok (c, w), g₁) →
    IsCommit c ∧ base c = epoch g ∧ committer c = owner g ∧ owner g ∈ roster (epoch g) ∧
    number (next c) = number (epoch g) + 1 ∧ holder kp ∉ roster (epoch g) ∧
    (∀ i, i ∈ roster (next c) ↔ i ∈ roster (epoch g) ∨ i = holder kp) ∧
    newcomer w = holder kp ∧ welcomeEpoch w = next c ∧
    ∃ g₂, M.mergePendingCommit g₁ = (.ok (), g₂) ∧ owner g₂ = owner g ∧ epoch g₂ = next c
  addMembers_error : ∀ g kp e g₁, M.addMembers g kp = (.error e, g₁) →
    owner g₁ = owner g ∧ epoch g₁ = epoch g
  removeMembers_ok : ∀ g k c g₁, M.removeMembers g k = (.ok c, g₁) →
    IsCommit c ∧ base c = epoch g ∧ committer c = owner g ∧ owner g ∈ roster (epoch g) ∧
    number (next c) = number (epoch g) + 1 ∧
    (∃ t, (M.members g).lookup k = some t ∧ t ≠ owner g ∧
      ∀ i, i ∈ roster (next c) ↔ i ∈ roster (epoch g) ∧ i ≠ t) ∧
    ∃ g₂, M.mergePendingCommit g₁ = (.ok (), g₂) ∧ owner g₂ = owner g ∧ epoch g₂ = next c
  removeMembers_error : ∀ g k e g₁, M.removeMembers g k = (.error e, g₁) →
    owner g₁ = owner g ∧ epoch g₁ = epoch g
  processMessage_commit : ∀ g c, IsCommit c → epoch g = base c → owner g ∈ roster (base c) →
    owner g ≠ committer c → ∃ sender staged g₁ g₂,
      M.processMessage g c = (.ok ⟨sender, .stagedCommitMessage staged⟩, g₁) ∧
      M.mergeStagedCommit g₁ staged = (.ok (), g₂) ∧ owner g₂ = owner g ∧ epoch g₂ = next c
  processMessage_stale : ∀ g c, IsCommit c → epoch g ≠ base c → ∃ e g₁,
    M.processMessage g c = (.error e, g₁) ∧ owner g₁ = owner g ∧ epoch g₁ = epoch g
  processMessage_application : ∀ g g' p m g₁, M.createMessage g p = (.ok m, g₁) →
    epoch g' = epoch g → owner g' ∈ roster (epoch g) → owner g' ≠ owner g → Unread g' m →
    ∃ g₂, M.processMessage g' m = (.ok ⟨owner g, .applicationMessage p⟩, g₂)

/-! ## 4. What the calls do -/

namespace Group

variable {ι : Type} {M : OpenMls ι} (V : M.View)

/-- `c` is a commit of the member `g`, and `g'` is `g` in the epoch it leads to. -/
structure Made (g : M.MlsGroup) (c : M.Message) (g' : M.MlsGroup) : Prop where
  isCommit : V.IsCommit c
  base : V.base c = V.epoch g
  committer : V.committer c = V.owner g
  member : V.owner g ∈ V.roster (V.epoch g)
  number : V.number (V.next c) = V.number (V.epoch g) + 1
  owner : V.owner g' = V.owner g
  epoch : V.epoch g' = V.next c

theorem members_eq (g : M.MlsGroup) : members g = V.roster (V.epoch g) := V.members_eq g

/-- A committer merges its own commit, whatever the others do. -/
theorem addMember_cases (g : M.MlsGroup) (keyPackage : M.KeyPackageIn) :
    (∃ c w g', addMember g keyPackage = (.ok (c, w), g') ∧ Made V g c g' ∧
      V.newcomer w ∉ V.roster (V.epoch g) ∧ V.welcomeEpoch w = V.next c ∧
      ∀ i, i ∈ V.roster (V.next c) ↔ i ∈ V.roster (V.epoch g) ∨ i = V.newcomer w) ∨
    (∃ e g', addMember g keyPackage = (.error e, g') ∧ V.owner g' = V.owner g ∧
      V.epoch g' = V.epoch g) := by
  unfold addMember
  cases M.validate keyPackage with
  | error e => exact Or.inr ⟨_, _, rfl, rfl, rfl⟩
  | ok kp =>
    rcases hadd : M.addMembers g kp with ⟨e | ⟨c, w⟩, g₁⟩
    · refine Or.inr ⟨.mls e, g₁, ?_, V.addMembers_error g kp e g₁ hadd⟩
      simp only [hadd]
    · obtain ⟨hcommit, hbase, hcommitter, hmember, hnumber, hnew, hroster, hnewcomer, hwelcome,
        g₂, hmerge, howner, hepoch⟩ := V.addMembers_ok g kp c w g₁ hadd
      rw [← hnewcomer] at hnew hroster
      refine Or.inl ⟨c, w, g₂, ?_,
        ⟨hcommit, hbase, hcommitter, hmember, hnumber, howner, hepoch⟩, hnew, hwelcome, hroster⟩
      simp only [hadd, hmerge]

theorem removeMember_cases (g : M.MlsGroup) (k : UInt32) :
    (∃ c t g', removeMember g k = (.ok c, g') ∧ Made V g c g' ∧
      (M.members g).lookup k = some t ∧
      ∀ i, i ∈ V.roster (V.next c) ↔ i ∈ V.roster (V.epoch g) ∧ i ≠ t) ∨
    (∃ e g', removeMember g k = (.error e, g') ∧ V.owner g' = V.owner g ∧
      V.epoch g' = V.epoch g) := by
  unfold removeMember
  rcases hremove : M.removeMembers g k with ⟨e | c, g₁⟩
  · exact Or.inr ⟨_, _, rfl, V.removeMembers_error g k e g₁ hremove⟩
  · obtain ⟨hcommit, hbase, hcommitter, hmember, hnumber, ⟨t, ht, -, hroster⟩, g₂, hmerge, howner,
      hepoch⟩ := V.removeMembers_ok g k c g₁ hremove
    simp only [hmerge]
    exact Or.inl ⟨c, t, g₂, rfl,
      ⟨hcommit, hbase, hcommitter, hmember, hnumber, howner, hepoch⟩, ht, hroster⟩

/-- A member takes another's commit in the epoch it was made in. -/
theorem process_commit {g : M.MlsGroup} {c : M.Message} (hcommit : V.IsCommit c)
    (hepoch : V.epoch g = V.base c) (hmember : V.owner g ∈ V.roster (V.base c))
    (hother : V.owner g ≠ V.committer c) : ∃ g', process g c = (.ok .membershipChanged, g') ∧
      V.owner g' = V.owner g ∧ V.epoch g' = V.next c := by
  obtain ⟨sender, staged, g₁, g₂, hprocess, hmerge, howner, hnext⟩ :=
    V.processMessage_commit g c hcommit hepoch hmember hother
  refine ⟨g₂, ?_, howner, hnext⟩
  unfold process
  simp only [hprocess, hmerge]

/-- In any other epoch it is rejected. -/
theorem process_stale {g : M.MlsGroup} {c : M.Message} (hcommit : V.IsCommit c)
    (hepoch : V.epoch g ≠ V.base c) : ∃ e g', process g c = (.error e, g') ∧
      V.owner g' = V.owner g ∧ V.epoch g' = V.epoch g := by
  obtain ⟨e, g₁, hprocess, hsame⟩ := V.processMessage_stale g c hcommit hepoch
  refine ⟨.mls e, g₁, ?_, hsame⟩
  unfold process
  simp only [hprocess]

theorem joinGroup_newcomer (w : M.Welcome) : ∃ g, joinGroup (V.newcomer w) w = .ok g ∧
    V.owner g = V.newcomer w ∧ V.epoch g = V.welcomeEpoch w := by
  obtain ⟨g, hnew, hg⟩ := V.newFromWelcome_ok w
  refine ⟨g, ?_, hg⟩
  unfold joinGroup mls
  rw [hnew]
  rfl

/-- Members of one epoch read each other's messages. -/
theorem process_send {g g' g₁ : M.MlsGroup} {p : Bytes} {m : M.Message}
    (hsend : send g p = (.ok m, g₁)) (hepoch : V.epoch g' = V.epoch g)
    (hmember : V.owner g' ∈ V.roster (V.epoch g)) (hother : V.owner g' ≠ V.owner g)
    (hunread : V.Unread g' m) :
    ∃ g₂, process g' m = (.ok (.application (V.owner g) p), g₂) := by
  have hcreate : M.createMessage g p = (.ok m, g₁) := by
    unfold send mls at hsend
    rcases hout : M.createMessage g p with ⟨e | m', g₂⟩
    · rw [hout] at hsend
      exact nomatch (Prod.mk.inj hsend).1
    · rw [hout] at hsend
      obtain ⟨hm, rfl⟩ := Prod.mk.inj hsend
      rw [Except.ok.inj hm]
  obtain ⟨g₂, hprocess⟩ :=
    V.processMessage_application g g' p m g₁ hcreate hepoch hmember hother hunread
  refine ⟨g₂, ?_⟩
  unfold process
  simp only [hprocess]

end Group

end Clarity
