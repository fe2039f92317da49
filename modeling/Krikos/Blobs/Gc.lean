import Krikos.Blobs.HashSeq
import Krikos.Lib.Calls

/-!
# Blobs.Gc

Garbage collection of blobs (`krikos-blobs/src/store/gc.rs`).

A run is a program that calls the store's actor: `gcRunOnce` clears the protections, marks the
live hashes and sweeps the others in batches. A `Backend` is an actor that answers these calls the
way the API says. Against any backend the mark phase computes the live set
`marked` (`run_gcMarkTask`), and the sweep keeps every live blob and, if it ends well, no other
blob (`run_gcSweepTask`).
-/

namespace Krikos.Blobs

open Lib Calls

abbrev Tag := Bytes

structure TagInfo where
  name : Tag
  hash : Hash
  format : BlobFormat

def TagInfo.hashAndFormat (info : TagInfo) : HashAndFormat := ⟨info.hash, info.format⟩

/-! ## Requests -/

/-- The requests of a run to the store. -/
inductive Request where
  | clearProtected
  | listTags
  | listTempTags
  | exportBao (hash : Hash)
  | listBlobs
  | deleteBlobs (hashes : List Hash) (force : Bool)
  | syncDb

abbrev Request.Response : Request → Type
  | .clearProtected => Except String Unit
  | .listTags => Except String (List (Except String TagInfo))
  | .listTempTags => Except String (List HashAndFormat)
  | .exportBao _ => List EncodedItem
  | .listBlobs => Except String (List (Except String Hash))
  | .deleteBlobs _ _ => Except String Unit
  | .syncDb => Except String Unit

abbrev Client := Calls Request Request.Response String

def delete (hashes : List Hash) : Client Unit := do
  let answer ← ask (.deleteBlobs hashes false)
  check answer

/-! ## Mark -/

/-- The order in which a hash set is iterated, for every set. -/
structure Order where
  visit : List HashAndFormat → List HashAndFormat
  perm : ∀ roots, (visit roots).Perm roots

/-- `roots.insert` for every tag, up to the first error. -/
def insertTags (roots : List HashAndFormat) :
    List (Except String TagInfo) → Except String (List HashAndFormat)
  | [] => .ok roots
  | .ok info :: tags => insertTags (roots.insert info.hashAndFormat) tags
  | .error e :: _ => .error e

def insertTempTags (roots tts : List HashAndFormat) : List HashAndFormat :=
  tts.foldl (fun roots tt => roots.insert tt) roots

variable (live : Finset Hash)

def markChild : Except String Hash → Finset Hash
  | .ok hash => insert hash live
  | .error _ => live

def markChildren (children : List (Except String Hash)) : Finset Hash :=
  children.foldl markChild live

/-- Only a hash that was not live yet is read as a hash sequence. -/
def reads (root : HashAndFormat) : Bool :=
  decide (root.hash ∉ live) && !root.format.isRaw

def markRoot (root : HashAndFormat) : Client (Finset Hash) :=
  if reads live root then do
    let items ← ask (.exportBao root.hash)
    pure (markChildren (insert root.hash live) (hashes items))
  else pure (insert root.hash live)

def markRoots : List HashAndFormat → Finset Hash → Client (Finset Hash)
  | [], live => pure live
  | root :: roots, live => do
    let live ← markRoot live root
    markRoots roots live

def gcMarkTask (order : Order) (live : Finset Hash) : Client (Finset Hash) := do
  let answer ← ask .listTags
  let tags ← check answer
  let roots ← check (insertTags [] tags)
  let answer ← ask .listTempTags
  let tts ← check answer
  markRoots (order.visit (insertTempTags roots tts)) live

/-! ## Sweep -/

def pushDead (batch : List Hash) (hash : Hash) : List Hash :=
  if hash ∈ live then batch else batch ++ [hash]

def sweepBlobs (live : Finset Hash) : List (Except String Hash) → List Hash → Client (List Hash)
  | [], batch => pure batch
  | item :: items, batch => do
    let hash ← check item
    if (pushDead live batch hash).length ≥ 100 then do
      delete (pushDead live batch hash)
      sweepBlobs live items []
    else sweepBlobs live items (pushDead live batch hash)

def syncDb : Client Unit := do
  let answer ← ask .syncDb
  check answer

def finishSweep (batch : List Hash) : Client Unit :=
  if batch.isEmpty then syncDb
  else do
    delete batch
    syncDb

def gcSweepTask : Client Unit := do
  let answer ← ask .listBlobs
  let blobs ← check answer
  let batch ← sweepBlobs live blobs []
  finishSweep batch

/-- A run; the externally protected hashes are live from the start. -/
def gcRunOnce (order : Order) (live : Finset Hash) : Client (Finset Hash) := do
  let answer ← ask .clearProtected
  check answer
  let live ← gcMarkTask order live
  gcSweepTask live
  pure live

/-! ## Backends -/

/-- What a store's state means. -/
structure View (σ : Type) where
  /-- There is an entry for the hash. -/
  Has : σ → Hash → Prop
  /-- The bytes of a blob that is stored completely. -/
  content : σ → Hash → Option Bytes
  tags : σ → List TagInfo
  tempTags : σ → List HashAndFormat
  /-- What an export of all ranges sends. -/
  exported : σ → Hash → List EncodedItem
  /-- No hash is protected from a delete without force. -/
  Unprotected : σ → Prop

namespace View
variable {σ : Type} (v : View σ)

/-- The states differ at most in their protections. -/
structure SameContent (s s' : σ) : Prop where
  has : ∀ hash, v.Has s' hash ↔ v.Has s hash
  tags : v.tags s' = v.tags s
  tempTags : v.tempTags s' = v.tempTags s
  exported : v.exported s' = v.exported s

/-- What a store may answer to a request, and what that does to it. Every request may fail;
a failed delete may have deleted some of its hashes. -/
def Answers : (req : Request) → σ → σ × req.Response → Prop
  | .clearProtected, s, (s', answer) =>
    v.SameContent s s' ∧ (answer = .ok () → v.Unprotected s')
  | .listTags, s, (s', answer) =>
    s' = s ∧ ∀ items roots, answer = .ok items → insertTags [] items = .ok roots →
      items = (v.tags s).map .ok
  | .listTempTags, s, (s', answer) => s' = s ∧ ∀ tts, answer = .ok tts → tts = v.tempTags s
  | .exportBao hash, s, (s', items) => s' = s ∧ items = v.exported s hash
  | .listBlobs, s, (s', answer) =>
    s' = s ∧ ∀ items, answer = .ok items → (∀ item ∈ items, item.isOk = true) →
      ∀ hash, v.Has s hash ↔ .ok hash ∈ items
  | .deleteBlobs hashes _, s, (s', answer) =>
    (∀ hash, v.Has s hash → hash ∉ hashes → v.Has s' hash) ∧
      (∀ hash, v.Has s' hash → v.Has s hash) ∧
      (v.Unprotected s → v.Unprotected s' ∧ (answer = .ok () → ∀ hash ∈ hashes, ¬ v.Has s' hash))
  | .syncDb, s, (s', _) => s' = s

def roots (s : σ) : List HashAndFormat :=
  insertTempTags (((v.tags s).map TagInfo.hashAndFormat).foldl (fun roots r => roots.insert r) [])
    (v.tempTags s)

/-- The children of a blob that is a fully stored hash sequence. -/
def sequence (s : σ) (hash : Hash) : List Hash :=
  match (v.content s hash).bind HashSeq.new with
  | some seq => seq.iter
  | none => []

/-- The hashes that reading a blob as a hash sequence delivers. -/
def listed (s : σ) (hash : Hash) : List Hash := delivered (v.exported s hash)

/-- The children of a fully stored hash sequence, and of any other blob the hashes in the blocks
that the store has. -/
def children (s : σ) (hash : Hash) : List Hash :=
  match (v.content s hash).bind HashSeq.new with
  | some seq => seq.iter
  | none => ((v.exported s hash).filterMap EncodedItem.leaf?).flatMap Leaf.hashes

end View

/-- An actor that answers as the API says, and exports stored blobs block by block. -/
structure Backend (σ : Type) extends View σ where
  handle : (req : Request) → σ → σ × req.Response
  answers : ∀ req s, toView.Answers req s (handle req s)
  leaves : ∀ s hash data, content s hash = some data →
    (exported s hash).filterMap EncodedItem.leaf? = leavesFrom 0 data

lemma Backend.listed_eq {σ : Type} (b : Backend σ) (s : σ) : b.listed s = b.children s := by
  funext hash
  rw [View.listed, delivered_eq, View.children]
  cases hc : b.content s hash with
  | none => rfl
  | some data =>
    rw [b.leaves s hash data hc, Option.bind_some]
    by_cases hlen : data.length % 32 = 0
    · rw [HashSeq.new, dif_pos hlen, flatMap_leavesFrom 0 hlen]
    · rw [HashSeq.new, dif_neg hlen]

/-! ## What the mark phase computes -/

def marked (listed : Hash → List Hash) (live : Finset Hash) (root : HashAndFormat) : Finset Hash :=
  if reads live root then insert root.hash live ∪ (listed root.hash).toFinset
  else insert root.hash live

def View.liveSet {σ : Type} (v : View σ) (order : Order) (s : σ) (external : Finset Hash) :
    Finset Hash :=
  (order.visit (v.roots s)).foldl (marked (v.listed s)) external

lemma markChildren_eq (items : List EncodedItem) :
    markChildren live (hashes items) = live ∪ (delivered items).toFinset := by
  unfold delivered markChildren
  generalize hashes items = children
  induction children generalizing live with
  | nil => simp
  | cons child children ih =>
    rw [List.foldl_cons, ih]
    cases child with
    | ok hash =>
      ext x
      simp only [markChild, Except.toOption, List.filterMap_cons, Finset.mem_union,
        Finset.mem_insert, List.mem_toFinset, List.mem_cons]
      tauto
    | error e => rfl

lemma mem_insertTempTags {r : HashAndFormat} {roots tts : List HashAndFormat} :
    r ∈ insertTempTags roots tts ↔ r ∈ roots ∨ r ∈ tts := by
  unfold insertTempTags
  induction tts generalizing roots with
  | nil => simp
  | cons tt tts ih =>
    rw [List.foldl_cons, ih, List.mem_insert_iff, List.mem_cons]
    tauto

section
variable {σ : Type} (b : Backend σ) {s : σ} {live : Finset Hash} (order : Order)

lemma run_markRoot (root : HashAndFormat) :
    (markRoot live root).run b.handle s = (s, .ok (marked (b.listed s) live root)) := by
  unfold markRoot marked
  split
  · have h := b.answers (.exportBao root.hash) s
    rw [run_ask_bind, run_pure, markChildren_eq, h.1, h.2]
    rfl
  · rfl

lemma run_markRoots (roots : List HashAndFormat) : (markRoots roots live).run b.handle s =
      (s, .ok (roots.foldl (marked (b.listed s)) live)) := by
  induction roots generalizing live with
  | nil => rfl
  | cons root roots ih => rw [markRoots, run_bind, run_markRoot, List.foldl_cons, ← ih]

lemma insertTags_ok (roots : List HashAndFormat) (tags : List TagInfo) :
    insertTags roots (tags.map .ok) =
      .ok ((tags.map TagInfo.hashAndFormat).foldl (fun roots r => roots.insert r) roots) := by
  induction tags generalizing roots with
  | nil => rfl
  | cons info tags ih => exact ih _

/-- The mark phase changes nothing, and if it ends well it has visited the roots in order. -/
lemma run_gcMarkTask (live : Finset Hash) : ((gcMarkTask order live).run b.handle s).1 = s ∧
    ∀ live', ((gcMarkTask order live).run b.handle s).2 = .ok live' →
      live' = (order.visit (b.roots s)).foldl (marked (b.listed s)) live := by
  obtain ⟨hstat, htags⟩ := b.answers .listTags s
  unfold gcMarkTask
  rw [run_ask_bind, hstat]
  cases hans : (b.handle .listTags s).2 with
  | error e => exact ⟨rfl, nofun⟩
  | ok items =>
    rw [run_check_bind_ok]
    cases hroot : insertTags [] items with
    | error e => exact ⟨rfl, nofun⟩
    | ok roots =>
      have hitem := htags items roots hans hroot
      rw [hitem, insertTags_ok] at hroot
      cases hroot
      obtain ⟨hstat, htts⟩ := b.answers .listTempTags s
      rw [run_check_bind_ok, run_ask_bind, hstat]
      cases hans : (b.handle .listTempTags s).2 with
      | error e => exact ⟨rfl, nofun⟩
      | ok tts =>
        rw [run_check_bind_ok, htts tts hans, run_markRoots]
        refine ⟨rfl, fun live' h => ?_⟩
        cases h
        rfl

/-! ## What the sweep keeps -/

/-- A state that a sweep can leave: the live blobs are kept, and no blob is added. -/
def Kept (v : View σ) (live : Finset Hash) (s s' : σ) : Prop :=
  (∀ hash, v.Has s hash → hash ∈ live → v.Has s' hash) ∧ ∀ hash, v.Has s' hash → v.Has s hash

lemma Kept.refl (v : View σ) (live : Finset Hash) (s : σ) : Kept v live s s :=
  ⟨fun _ h _ => h, fun _ h => h⟩

lemma Kept.trans {v : View σ} {s s' s'' : σ} (h : Kept v live s s') (h' : Kept v live s' s'') :
    Kept v live s s'' :=
  ⟨fun hash hhas hlive => h'.1 hash (h.1 hash hhas hlive) hlive,
    fun hash hhas => h.2 hash (h'.2 hash hhas)⟩

variable {batch : List Hash}

lemma run_delete (hdead : ∀ hash ∈ batch, hash ∉ live) (hunp : b.Unprotected s) :
    let after := (delete batch).run b.handle s
    Kept b.toView live s after.1 ∧ b.Unprotected after.1 ∧
      (after.2 = .ok () → ∀ hash ∈ batch, ¬ b.Has after.1 hash) := by
  obtain ⟨hkeep, hsub, hgone⟩ := b.answers (.deleteBlobs batch false) s
  have hrun : (delete batch).run b.handle s =
      ((b.handle (.deleteBlobs batch false) s).1, (b.handle (.deleteBlobs batch false) s).2) := by
    unfold delete
    rw [run_ask_bind]
    cases (b.handle (.deleteBlobs batch false) s).2 <;> rfl
  rw [hrun]
  exact ⟨⟨fun hash hhas hlive => hkeep hash hhas fun hmem => hdead hash hmem hlive, hsub⟩,
    hgone hunp⟩

lemma mem_pushDead {hash x : Hash} :
    x ∈ pushDead live batch hash ↔ x ∈ batch ∨ x = hash ∧ x ∉ live := by
  unfold pushDead
  split
  · rename_i hlive
    refine ⟨.inl, fun h => h.elim id ?_⟩
    rintro ⟨rfl, hdead⟩
    contradiction
  · rename_i hdead
    rw [List.mem_append, List.mem_singleton]
    exact or_congr_right ⟨fun h => ⟨h, h ▸ hdead⟩, And.left⟩

/-- The loop of the sweep: live blobs are kept, and if it ends well the dead ones of the list are
gone or in the batch that is left. -/
lemma run_sweepBlobs (items : List (Except String Hash)) (hdead : ∀ hash ∈ batch, hash ∉ live)
    (hunp : b.Unprotected s) : let after := (sweepBlobs live items batch).run b.handle s
    Kept b.toView live s after.1 ∧ b.Unprotected after.1 ∧
      ∀ batch', after.2 = .ok batch' →
        (∀ item ∈ items, item.isOk = true) ∧ (∀ hash ∈ batch', hash ∉ live) ∧
        ∀ hash, hash ∈ batch ∨ .ok hash ∈ items → hash ∉ live →
          hash ∈ batch' ∨ ¬ b.Has after.1 hash := by
  induction items generalizing batch s with
  | nil =>
    refine ⟨.refl _ _ _, hunp, ?_⟩
    intro batch' h
    cases h
    refine ⟨by simp, hdead, ?_⟩
    intro hash hhash _
    exact .inl (hhash.resolve_right List.not_mem_nil)
  | cons item items ih =>
    cases item with
    | error e => exact ⟨.refl _ _ _, hunp, nofun⟩
    | ok hash =>
      have hpush : ∀ x ∈ pushDead live batch hash, x ∉ live := fun x hx =>
        (mem_pushDead.mp hx).elim (hdead x) And.right
      have hlis : ∀ x, x ∈ batch ∨ Except.ok x ∈ Except.ok hash :: items → x ∉ live →
          x ∈ pushDead live batch hash ∨ Except.ok x ∈ items := by
        intro x hx hlive
        rcases hx with hx | hx
        · exact .inl (mem_pushDead.mpr (.inl hx))
        · rw [List.mem_cons, Except.ok.injEq] at hx
          exact hx.imp_left fun hx => mem_pushDead.mpr (.inr ⟨hx, hlive⟩)
      rw [sweepBlobs, run_check_bind_ok]
      split
      · obtain ⟨hkept, hstil, hgone⟩ := run_delete b hpush hunp
        rw [run_bind]
        rcases hdel : (delete (pushDead live batch hash)).run b.handle s with ⟨s', answer⟩
        rw [hdel] at hkept hstil hgone
        cases answer with
        | error e => exact ⟨hkept, hstil, nofun⟩
        | ok u =>
          have hnil : ∀ x ∈ ([] : List Hash), x ∉ live := by simp
          obtain ⟨hkept', hstil', hleft⟩ := ih hnil hstil
          refine ⟨hkept.trans hkept', hstil', ?_⟩
          intro batch' h
          obtain ⟨hok, hdead', hleft⟩ := hleft batch' h
          refine ⟨by simpa [Except.isOk, Except.toBool] using hok, hdead', ?_⟩
          intro x hx hlive
          cases hlis x hx hlive with
          | inl hx => exact .inr fun hhas => hgone rfl x hx (hkept'.2 x hhas)
          | inr hx => exact hleft x (.inr hx) hlive
      · obtain ⟨hkept, hstil, hleft⟩ := ih hpush hunp
        refine ⟨hkept, hstil, ?_⟩
        intro batch' h
        obtain ⟨hok, hdead', hleft⟩ := hleft batch' h
        refine ⟨by simpa [Except.isOk, Except.toBool] using hok, hdead', ?_⟩
        intro x hx hlive
        exact hleft x (hlis x hx hlive) hlive

lemma run_syncDb : (syncDb.run b.handle s).1 = s := by
  have hstat : (b.handle .syncDb s).1 = s := b.answers .syncDb s
  unfold syncDb
  rw [run_ask_bind, hstat]
  cases (b.handle .syncDb s).2 <;> rfl

lemma run_finishSweep (hdead : ∀ hash ∈ batch, hash ∉ live) (hunp : b.Unprotected s) :
    Kept b.toView live s ((finishSweep batch).run b.handle s).1 ∧
      (((finishSweep batch).run b.handle s).2 = .ok () →
        ∀ hash ∈ batch, ¬ b.Has ((finishSweep batch).run b.handle s).1 hash) := by
  unfold finishSweep
  split
  · rename_i hemp
    rw [run_syncDb]
    refine ⟨.refl _ _ _, ?_⟩
    intro _ hash hmem
    rw [List.isEmpty_iff.mp hemp] at hmem
    cases hmem
  · obtain ⟨hkept, _, hgone⟩ := run_delete b hdead hunp
    rw [run_bind]
    rcases hdel : (delete batch).run b.handle s with ⟨s', answer⟩
    rw [hdel] at hkept hgone
    cases answer with
    | error e => exact ⟨hkept, nofun⟩
    | ok u =>
      dsimp only
      rw [run_syncDb]
      exact ⟨hkept, fun _ => hgone rfl⟩

lemma run_gcSweepTask (live : Finset Hash) (hunp : b.Unprotected s) :
    let after := (gcSweepTask live).run b.handle s
    Kept b.toView live s after.1 ∧
      (after.2 = .ok () → ∀ hash, b.Has after.1 hash → hash ∈ live) := by
  obtain ⟨hstat, hlist⟩ := b.answers .listBlobs s
  unfold gcSweepTask
  rw [run_ask_bind, hstat]
  cases hans : (b.handle .listBlobs s).2 with
  | error e => exact ⟨.refl _ _ _, nofun⟩
  | ok items =>
    have hnil : ∀ x ∈ ([] : List Hash), x ∉ live := by simp
    obtain ⟨hkept, hstil, hleft⟩ := run_sweepBlobs b items hnil hunp
    rw [run_check_bind_ok, run_bind]
    rcases hsweep : (sweepBlobs live items []).run b.handle s with ⟨s', answer⟩
    rw [hsweep] at hkept hstil hleft
    cases answer with
    | error e => exact ⟨hkept, nofun⟩
    | ok batch =>
      obtain ⟨hok, hdead, hleft⟩ := hleft batch rfl
      obtain ⟨hkept', hgone⟩ := run_finishSweep b hdead hstil
      refine ⟨hkept.trans hkept', ?_⟩
      intro hend hash hhas
      by_contra hlive
      have hlis := (hlist items hans hok hash).mp (hkept.2 hash (hkept'.2 hash hhas))
      cases hleft hash (.inr hlis) hlive with
      | inl hbat => exact hgone hend hash hbat hhas
      | inr hnot => exact hnot (hkept'.2 hash hhas)

lemma run_gcRunOnce (external : Finset Hash) :
    (∀ hash, b.Has s hash → hash ∈ b.liveSet order s external →
      b.Has ((gcRunOnce order external).run b.handle s).1 hash) ∧
    ∀ live', ((gcRunOnce order external).run b.handle s).2 = .ok live' →
      ∀ hash, b.Has ((gcRunOnce order external).run b.handle s).1 hash →
        hash ∈ b.liveSet order s external := by
  have hclear := b.answers .clearProtected s
  unfold gcRunOnce
  rw [run_ask_bind]
  rcases hans : b.handle .clearProtected s with ⟨s₁, answer⟩
  rw [hans] at hclear
  obtain ⟨hsame, hclear⟩ := hclear
  cases answer with
  | error e => exact ⟨fun hash hhas _ => (hsame.has hash).mpr hhas, nofun⟩
  | ok u =>
    obtain ⟨hstat, hlive⟩ := run_gcMarkTask b (s := s₁) order external
    rw [run_check_bind_ok, run_bind]
    rcases hmark : (gcMarkTask order external).run b.handle s₁ with ⟨s₂, answer⟩
    rw [hmark] at hstat hlive
    obtain rfl : s₂ = s₁ := hstat
    cases answer with
    | error e => exact ⟨fun hash hhas _ => (hsame.has hash).mpr hhas, nofun⟩
    | ok live =>
      have hview : live = b.liveSet order s external := by
        rw [hlive live rfl, View.liveSet, View.roots, View.roots, hsame.tags, hsame.tempTags]
        have hlis : b.listed s₂ = b.listed s := by
          funext hash
          rw [View.listed, View.listed, hsame.exported]
        rw [hlis]
      subst hview
      obtain ⟨hkept, hgone⟩ := run_gcSweepTask b (b.liveSet order s external) (hclear rfl)
      dsimp only
      rw [run_bind]
      rcases hsweep : (gcSweepTask (b.liveSet order s external)).run b.handle s₂ with ⟨s₃, answer⟩
      rw [hsweep] at hkept hgone
      have hhas : ∀ hash, b.Has s hash → hash ∈ b.liveSet order s external → b.Has s₃ hash :=
        fun hash hhas hmem => hkept.1 hash ((hsame.has hash).mpr hhas) hmem
      cases answer with
      | error e => exact ⟨hhas, nofun⟩
      | ok u => exact ⟨hhas, fun _ _ hash h => hgone rfl hash h⟩

end
end Krikos.Blobs
