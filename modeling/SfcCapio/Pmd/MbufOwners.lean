import SfcCapio.Pmd.Receive

/-!
# Owners of mbufs

Ownership is ghost state: the log of an event moves an mbuf between the pool, the
driver and the caller.  The pool hands out only what it holds.  From that alone,
`took_event` derives what the allocations of one event can yield, and the lemmas
about `RxCase` read off the table what becomes of it.
-/

namespace SfcCapio
namespace Pmd

open Hardware Userlib

/-! ## Moving mbufs -/

/-- Who may use an mbuf. -/
inductive Owner
  | pool
  | pmd
  | app
deriving DecidableEq, Repr

/-- An entry of the log moves its mbuf. -/
def settle (owner : Nat → Owner) : MbufAct → Nat → Owner
  | .alloc m => Function.update owner m .pmd
  | .deliver m => Function.update owner m .app
  | .free m => Function.update owner m .pool
  | .post _ => owner
  | .refuse _ => owner

/-- The owners after a log. -/
def settleAll (owner : Nat → Owner) (acts : List MbufAct) : Nat → Owner :=
  acts.foldl settle owner

/-- The pool hands out only what it holds: 64 different mbufs at a time, or one. -/
def PoolReply.valid (reply : PoolReply) (owner : Nat → Owner) : Bool :=
  (reply.bulk.all fun ms =>
      decide (ms.length = stashSize ∧ ms.Nodup ∧ ∀ m ∈ ms, owner m = .pool)) &&
    reply.single.all fun m => decide (owner m = .pool)

/-- The answers to the two allocations of an event are possible. -/
def poolAnswers (owner : Nat → Owner) (stash : List Nat) (reply₁ reply₂ : PoolReply) : Bool :=
  reply₁.valid owner &&
    reply₂.valid (settleAll owner ((takeMbuf stash reply₁).allocs.map .alloc))

theorem settleAll_append (owner : Nat → Owner) (as bs : List MbufAct) :
    settleAll owner (as ++ bs) = settleAll (settleAll owner as) bs :=
  List.foldl_append

theorem settleAll_alloc (owner : Nat → Owner) (ms : List Nat) (x : Nat) :
    settleAll owner (ms.map .alloc) x = if x ∈ ms then .pmd else owner x := by
  induction ms generalizing owner with
  | nil => rfl
  | cons m ms ih =>
    change settleAll (Function.update owner m .pmd) (ms.map .alloc) x = _
    rw [ih]
    by_cases hm : x = m
    · subst x
      simp
    · simp [hm]

/-- What is neither allocated nor handed on keeps its owner. -/
theorem settleAll_of_not_mem {acts : List MbufAct} {x : Nat} (owner : Nat → Owner)
    (halloc : .alloc x ∉ acts) (hhands : ¬ HandsOn acts x) :
    settleAll owner acts x = owner x := by
  induction acts generalizing owner with
  | nil => rfl
  | cons a acts ih =>
    simp only [HandsOn, List.mem_cons, not_or] at halloc hhands
    obtain ⟨⟨hdel, hdels⟩, ⟨hfree, hfrees⟩⟩ := hhands
    have hrest := ih (settle owner a) halloc.2 fun hor => hor.elim hdels hfrees
    change settleAll (settle owner a) acts x = owner x
    rw [hrest]
    cases a with
    | alloc m =>
      apply Function.update_of_ne
      rintro rfl
      exact halloc.1 rfl
    | deliver m =>
      apply Function.update_of_ne
      rintro rfl
      exact hdel rfl
    | free m =>
      apply Function.update_of_ne
      rintro rfl
      exact hfree rfl
    | post m => rfl
    | refuse m => rfl

/-! ## Allocations -/

/-- The mbufs `gots` were obtained by the allocations `t`, from a stash or from
the pool; what remains in the stash is disjoint from them. -/
structure Took (owner : Nat → Owner) (stash : List Nat) (t : Taken) (gots : List Nat) :
    Prop where
  stashNodup : t.stash.Nodup
  pooled : ∀ y ∈ t.allocs, owner y = .pool
  source : ∀ y ∈ t.stash, y ∈ stash ∨ y ∈ t.allocs
  gotNodup : gots.Nodup
  got : ∀ y ∈ gots, y ∉ t.stash ∧ (y ∈ stash ∨ y ∈ t.allocs)

variable {owner : Nat → Owner} {ms stash : List Nat} {reply : PoolReply}

theorem PoolReply.bulk_of_valid (hvalid : reply.valid owner = true) (hbulk : reply.bulk = some ms) :
    ms.Nodup ∧ ∀ m ∈ ms, owner m = .pool := by
  simp only [PoolReply.valid, hbulk, Option.all_some, Bool.and_eq_true,
    decide_eq_true_eq] at hvalid
  exact hvalid.1.2

theorem PoolReply.single_of_valid {m : Nat} (hvalid : reply.valid owner = true)
    (hsingle : reply.single = some m) :
    owner m = .pool := by
  simp only [PoolReply.valid, hsingle, Option.all_some, Bool.and_eq_true,
    decide_eq_true_eq] at hvalid
  exact hvalid.2

theorem nodup_getLast?_dropLast {m : Nat} (hnodup : ms.Nodup)
    (hlast : ms.getLast? = some m) : m ∉ ms.dropLast := by
  obtain ⟨init, rfl⟩ := List.getLast?_eq_some_iff.mp hlast
  rw [List.dropLast_concat]
  rw [List.nodup_append] at hnodup
  intro hmem
  exact hnodup.2.2 m hmem m (List.mem_singleton.mpr rfl) rfl

theorem nodup_toList (o : Option Nat) : o.toList.Nodup := by
  cases o <;> simp

theorem took_takeMbuf (hnodup : stash.Nodup) (hvalid : reply.valid owner = true) :
    Took owner stash (takeMbuf stash reply) (takeMbuf stash reply).mbuf.toList := by
  unfold takeMbuf
  cases hlast : stash.getLast? with
  | some m =>
    have hm := List.mem_of_getLast? hlast
    have hout := nodup_getLast?_dropLast hnodup hlast
    exact
      { stashNodup := hnodup.sublist (List.dropLast_sublist stash)
        pooled := by simp
        source := fun y hy => Or.inl (List.mem_of_mem_dropLast hy)
        gotNodup := by simp
        got := by
          intro y hy
          obtain rfl : y = m := by simpa using hy
          exact ⟨hout, Or.inl hm⟩ }
  | none =>
    cases hbulk : reply.bulk with
    | some ms =>
      obtain ⟨hms, hpool⟩ := PoolReply.bulk_of_valid hvalid hbulk
      exact
        { stashNodup := hms.sublist (List.dropLast_sublist ms)
          pooled := hpool
          source := fun y hy => Or.inr (List.mem_of_mem_dropLast hy)
          gotNodup := nodup_toList _
          got := by
            intro y hy
            have hy' : ms.getLast? = some y := by simpa using hy
            exact ⟨nodup_getLast?_dropLast hms hy', Or.inr (List.mem_of_getLast? hy')⟩ }
    | none =>
      cases hsingle : reply.single with
      | some m =>
        have hpool := PoolReply.single_of_valid hvalid hsingle
        exact
          { stashNodup := List.nodup_nil
            pooled := by
              intro y hy
              obtain rfl : y = m := by simpa using hy
              exact hpool
            source := by simp
            gotNodup := by simp
            got := by simp }
      | none =>
        exact
          { stashNodup := List.nodup_nil
            pooled := by simp
            source := by simp
            gotNodup := by simp
            got := by simp }

/-- A second allocation, after which the first mbuf is still at hand. -/
theorem Took.second {t : Taken} {gots : List Nat} (htook : Took owner stash t gots)
    (hstash : ∀ y ∈ stash, owner y = .pmd)
    (hvalid : reply.valid (settleAll owner (t.allocs.map .alloc)) = true) :
    Took owner stash (t.andThen (takeMbuf t.stash reply))
      (gots ++ (takeMbuf t.stash reply).mbuf.toList) := by
  have hmore := took_takeMbuf htook.stashNodup hvalid
  -- an mbuf of the driver is not in the pool any more
  have hfresh : ∀ y, y ∈ stash ∨ y ∈ t.allocs → y ∉ (takeMbuf t.stash reply).allocs := by
    intro y hy hnew
    have hpool := hmore.pooled y hnew
    rw [settleAll_alloc] at hpool
    by_cases halloc : y ∈ t.allocs
    · simp [halloc] at hpool
    · have hown := hstash y (hy.resolve_right halloc)
      simp [halloc, hown] at hpool
  have hspread : ∀ y, y ∈ t.stash ∨ y ∈ (takeMbuf t.stash reply).allocs →
      y ∈ stash ∨ y ∈ (t.andThen (takeMbuf t.stash reply)).allocs := by
    intro y hy
    rcases hy with hold | hnew
    · rcases htook.source y hold with hs | ha
      · exact Or.inl hs
      · exact Or.inr (List.mem_append_left _ ha)
    · exact Or.inr (List.mem_append_right _ hnew)
  have hkept : ∀ y ∈ gots, y ∉ t.stash ∧ y ∉ (takeMbuf t.stash reply).allocs :=
    fun y hy => ⟨(htook.got y hy).1, hfresh y (htook.got y hy).2⟩
  refine
    { stashNodup := hmore.stashNodup
      pooled := ?_
      source := fun y hy => hspread y (hmore.source y hy)
      gotNodup := ?_
      got := ?_ }
  · intro y hy
    rcases List.mem_append.mp hy with hold | hnew
    · exact htook.pooled y hold
    · have hpool := hmore.pooled y hnew
      rw [settleAll_alloc] at hpool
      by_cases halloc : y ∈ t.allocs
      · simp [halloc] at hpool
      · simpa [halloc] using hpool
  · refine List.nodup_append.mpr ⟨htook.gotNodup, hmore.gotNodup, ?_⟩
    rintro a ha b hb rfl
    exact (hmore.got a hb).2.elim (hkept a ha).1 (hkept a ha).2
  · intro y hy
    rcases List.mem_append.mp hy with hold | hnew
    · refine ⟨?_, ?_⟩
      · intro hin
        exact (hmore.source y hin).elim (hkept y hold).1 (hkept y hold).2
      · rcases (htook.got y hold).2 with hs | ha
        · exact Or.inl hs
        · exact Or.inr (List.mem_append_left _ ha)
    · exact ⟨(hmore.got y hnew).1, hspread y (hmore.got y hnew).2⟩

/-- The mbufs an event obtains. -/
def obtained (got₁ got₂ : Option Nat) : Bool → List Nat
  | false => got₁.toList
  | true => got₁.toList ++ got₂.toList

theorem took_event {reply₁ reply₂ : PoolReply} (hnodup : stash.Nodup)
    (hstash : ∀ y ∈ stash, owner y = .pmd) (hvalid₁ : reply₁.valid owner = true)
    (hvalid₂ : reply₂.valid
      (settleAll owner ((takeMbuf stash reply₁).allocs.map .alloc)) = true) (second : Bool) :
    Took owner stash ((takeMbuf stash reply₁).followedBy reply₂ second)
      (obtained (takeMbuf stash reply₁).mbuf
        (takeMbuf (takeMbuf stash reply₁).stash reply₂).mbuf second) := by
  have hfirst := took_takeMbuf hnodup hvalid₁
  cases second with
  | false => exact hfirst
  | true => exact hfirst.second hstash hvalid₂

/-! ### Single allocations -/

/-- An answer of the pool that fails in bulk. -/
def PoolReply.one (got : Option Nat) : PoolReply := { bulk := none, single := got }

theorem takeMbuf_one (got : Option Nat) :
    takeMbuf [] (.one got) = { mbuf := got, allocs := got.toList, stash := [] } := by
  cases got <;> rfl

theorem PoolReply.one_valid {got : Option Nat}
    (hpool : ∀ m, got = some m → owner m = .pool) : (PoolReply.one got).valid owner = true := by
  cases got with
  | none => rfl
  | some m => simp [PoolReply.valid, PoolReply.one, hpool m rfl]

theorem poolAnswers_ones {a b : Nat} (ha : owner a = .pool) (hb : owner b = .pool) (hne : b ≠ a) :
    poolAnswers owner [] (.one (some a)) (.one (some b)) = true := by
  simp only [poolAnswers, takeMbuf_one, Bool.and_eq_true]
  refine ⟨PoolReply.one_valid ?_, PoolReply.one_valid ?_⟩
  · rintro m ⟨⟩
    exact ha
  · rintro m ⟨⟩
    rw [settleAll_alloc, if_neg (by simpa using hne)]
    exact hb

/-- All that an event takes with such answers. -/
def takenOnes (got₁ got₂ : Option Nat) : Bool → Taken
  | false => { mbuf := got₁, allocs := got₁.toList, stash := [] }
  | true => { mbuf := got₂, allocs := got₁.toList ++ got₂.toList, stash := [] }

theorem followedBy_ones (got₁ got₂ : Option Nat) (second : Bool) :
    (takeMbuf [] (.one got₁)).followedBy (.one got₂) second =
      takenOnes got₁ got₂ second := by
  cases second with
  | false => rw [Taken.followedBy, takeMbuf_one, takenOnes]
  | true => simp only [Taken.followedBy, takeMbuf_one, Taken.andThen, takenOnes]

/-! ## What the table says about owners -/

section Table

variable {copy : Bool} {libLen extLen : Nat} {cookie got₁ got₂ : Option Nat}
variable {second : Bool} {back : GiveBack} {acts : List MbufAct} {used : Option Nat}

theorem RxCase.used_eq (hcase : RxCase copy libLen extLen cookie got₁ got₂ second back acts used)
    {m : Nat} (hused : used = some m) : cookie = some m := by
  cases hcase with
  | starvedCookie _ hcookie | emptyCookie _ _ hcookie _ | handed _ _ hcookie _ =>
    exact hcookie.trans hused
  | _ => cases hused

/-- Allocations are logged before the rest. -/
theorem RxCase.alloc_not_mem
    (hcase : RxCase copy libLen extLen cookie got₁ got₂ second back acts used) (m : Nat) :
    .alloc m ∉ acts := by
  cases hcase <;> simp

/-- What leaves the driver is what the event obtained or the slot's cookie. -/
theorem RxCase.handsOn
    (hcase : RxCase copy libLen extLen cookie got₁ got₂ second back acts used) {x : Nat}
    (hx : HandsOn acts x) : x ∈ obtained got₁ got₂ second ∨ cookie = some x := by
  cases hcase with
  | starvedLibrary _ _ => simp [HandsOn] at hx
  | starvedCookie _ _ => simp [HandsOn] at hx
  | emptyLibrary hgot _ _ => exact Or.inl (by simpa [HandsOn, obtained, hgot] using hx)
  | starvedCopy hgot _ _ hgot' | copied hgot _ _ hgot' =>
    exact Or.inl (by simpa [HandsOn, obtained, hgot, hgot'] using hx)
  | swapped hgot _ _ _ _ =>
    exact Or.inl (by simp_all [HandsOn, obtained])
  | emptyCookie _ _ hcookie _ | handed _ _ hcookie _ =>
    exact Or.inr (by simpa [HandsOn, hcookie, eq_comm] using hx)

/-- So is what is posted, and that does not leave the driver. -/
theorem RxCase.posted
    (hcase : RxCase copy libLen extLen cookie got₁ got₂ second back acts used) {p : Nat}
    (hback : back = .post p) (hnodup : (obtained got₁ got₂ second).Nodup)
    (hapart : ∀ y ∈ obtained got₁ got₂ second, cookie ≠ some y) :
    (p ∈ obtained got₁ got₂ second ∨ cookie = some p) ∧ ¬ HandsOn acts p := by
  cases hcase with
  | starvedCookie _ hcookie =>
    cases hback
    exact ⟨Or.inr hcookie, by simp [HandsOn]⟩
  | swapped hgot _ _ _ hgot' =>
    cases hback
    simp only [obtained, hgot, hgot', Option.toList_some, List.cons_append, List.nil_append,
      List.nodup_cons, List.mem_singleton] at hnodup
    exact ⟨Or.inl (by simp [obtained, hgot']), by simpa [HandsOn, eq_comm] using hnodup.1⟩
  | emptyCookie hgot _ hcookie _ | handed hgot _ hcookie _ =>
    cases hback
    have hp : p ∈ obtained got₁ got₂ false := by simp [obtained, hgot]
    have hne := hapart p hp
    rw [hcookie, Ne, Option.some.injEq] at hne
    exact ⟨Or.inl hp, by simpa [HandsOn, eq_comm] using hne⟩
  | _ => cases hback

/-- In zero-copy mode a slot is released only while it is a library slot. -/
theorem RxCase.release_cookie
    (hcase : RxCase copy libLen extLen cookie got₁ got₂ second back acts used)
    (hback : back = .release) (hcopy : copy = false) : cookie = none := by
  cases hcase with
  | starvedLibrary _ hcookie => exact hcookie
  | emptyLibrary _ hcookie _ | starvedCopy _ hcookie _ _ =>
    exact hcookie.resolve_left (by simp [hcopy])
  | copied _ hcopied _ _ => simp [hcopy] at hcopied
  | _ => cases hback

/-! Three inputs determine the line. -/

theorem RxCase.of_starved
    (hcase : RxCase copy libLen extLen none none got₂ second back acts used) :
    second = false ∧ back = .release ∧ acts = [] := by
  cases hcase with
  | starvedLibrary _ _ => exact ⟨rfl, rfl, rfl⟩
  | starvedCookie _ hcookie => cases hcookie
  | emptyLibrary hgot _ _ | starvedCopy hgot _ _ _ | copied hgot _ _ _
  | swapped hgot _ _ _ _ | emptyCookie hgot _ _ _ | handed hgot _ _ _ => cases hgot

theorem RxCase.of_library {m repl : Nat} (hlen : libLen ≠ 0)
    (hcase : RxCase false libLen extLen none (some m) (some repl) second back acts used) :
    second = true ∧ back = .post repl ∧ acts = [.post repl, .deliver m] := by
  cases hcase with
  | swapped hgot _ _ _ hgot' =>
    cases hgot
    cases hgot'
    exact ⟨rfl, rfl, rfl⟩
  | starvedLibrary hgot _ | starvedCookie hgot _ | starvedCopy _ _ _ hgot => cases hgot
  | emptyLibrary _ _ hempty => exact absurd hempty hlen
  | copied _ hcopy _ _ => cases hcopy
  | emptyCookie _ _ hcookie _ | handed _ _ hcookie _ => cases hcookie

theorem RxCase.of_cookie {c repl : Nat} (hlen : extLen ≠ 0)
    (hcase : RxCase false libLen extLen (some c) (some repl) got₂ second back acts used) :
    second = false ∧ back = .post repl ∧ acts = [.post repl, .deliver c] := by
  cases hcase with
  | handed hgot _ hcookie _ =>
    cases hgot
    cases hcookie
    exact ⟨rfl, rfl, rfl⟩
  | starvedLibrary hgot _ | starvedCookie hgot _ => cases hgot
  | emptyLibrary _ hcookie _ | starvedCopy _ hcookie _ _ => simp at hcookie
  | copied _ hcopy _ _ => cases hcopy
  | swapped _ _ hcookie _ _ => cases hcookie
  | emptyCookie _ _ _ hempty => exact absurd hempty hlen

/-- With mbufs at hand and a frame to deliver, zero-copy mode always posts. -/
theorem RxCase.exists_post
    (hcase : RxCase copy libLen extLen cookie got₁ got₂ second back acts used)
    (hcopy : copy = false) (hlen : libLen ≠ 0) (hgot₁ : got₁.isSome = true)
    (hgot₂ : got₂.isSome = true) : ∃ p, back = .post p := by
  cases hcase with
  | starvedLibrary hgot _ => simp [hgot] at hgot₁
  | emptyLibrary _ _ hempty => exact absurd hempty hlen
  | starvedCopy _ _ _ hgot => simp [hgot] at hgot₂
  | copied _ hcopied _ _ => simp [hcopy] at hcopied
  | _ => exact ⟨_, rfl⟩

end Table

end Pmd
end SfcCapio
