import Dm20.Protobuf.InFlight

open Slots

namespace IS

open ProtobufParser Serialized MultiFragment

/-- Messages that come one after the other, each of them whole: each comes out. -/
def Follow (side : Side) : RecvDataMap → List MultiFragment → Prop
  | _, [] => True
  | recvDataMap, b :: bs => ∃ results recvDataMap' result, receive side recvDataMap b.fs = .ok (results, recvDataMap') ∧
      results.filter (· ≠ []) = [result] ∧ b.IsMessage result ∧ Follow side recvDataMap' bs

/-- Some fragments of a message come and then other messages, all of which come out. -/
def FollowLoss (side : Side) (recvDataMap : RecvDataMap) (came : List Str) (bs : List MultiFragment) : Prop :=
  ∃ results recvDataMap', receive side recvDataMap came = .ok (results, recvDataMap') ∧ Follow side recvDataMap' bs

/-- Messages that come out in spite of the loss: nothing of the message has come; or,
when the next message has filled the last place that is empty, its payload up to there
and what was kept behind it read as the next message, and those after it come out in
spite of its rest. -/
def Recovers : MultiFragment → List Str → List MultiFragment → Prop
  | _, _, [] => True
  | a, came, b :: bs => b.Short ∧
      ((came = [] ∧ Recovers b [] bs) ∨
        (came ≠ [] ∧ ∃ k < b.fs.length, LastMissing (a.kept a.fs came) k ∧
          b.IsMessage (b.payloadBefore b.fs (k + 1) ++ ((a.kept a.fs came).drop (k + 1)).flatten) ∧
          Recovers b (b.fs.drop (k + 1)) bs))

/-- The map when some fragments of a message have come, but not all of them. -/
def afterLoss (recvDataMap : RecvDataMap) (a : MultiFragment) (came : List Str) : RecvDataMap :=
  if came = [] then recvDataMap else Function.update recvDataMap a.key (some (a.kept a.fs came))

namespace Serialized

private theorem exists_lastMissing {data : List Str} (h : [] ∈ data) : ∃ k, LastMissing data k := by
  induction data with
  | nil => cases h
  | cons part data ih =>
    by_cases hrest : [] ∈ data
    · obtain ⟨k, hk, hbehind⟩ := ih hrest
      exact ⟨k + 1, hk, hbehind⟩
    · obtain rfl : [] = part := (List.mem_cons.mp h).resolve_right hrest
      exact ⟨0, rfl, fun part hpart hnil => hrest (hnil ▸ hpart)⟩

/-- The last place that is missing is behind each other one. -/
theorem LastMissing.le {data : List Str} {k l : Nat} (hk : LastMissing data k) (hl : LastMissing data l) : l ≤ k := by
  by_contra hlt
  refine hk.2 [] (List.mem_of_getElem? (i := l - (k + 1)) ?_) rfl
  rw [List.getElem?_drop, show k + 1 + (l - (k + 1)) = l by omega]
  exact hl.1

/-- There is one last place that is missing at most. -/
theorem LastMissing.unique {data : List Str} {k l : Nat} (hk : LastMissing data k) (hl : LastMissing data l) : k = l :=
  Nat.le_antisymm (hl.le hk) (hk.le hl)

end Serialized

variable {side : Side} {recvDataMap : RecvDataMap}

/-- The next message after one of which nothing is left. -/
theorem follow_cons_of_none {b : MultiFragment} (hb : b.Short) (hmap : recvDataMap b.key = none)
    (bs : List MultiFragment) :
    Follow side recvDataMap (b :: bs) ↔ Follow side recvDataMap bs := by
  obtain ⟨result, hmessage, hreceive⟩ := hb.receive_inOrder side hmap
  constructor
  · rintro ⟨results, recvDataMap', result', hreceive', -, -, hfollow⟩
    obtain ⟨rfl, rfl⟩ := Prod.mk.inj (Except.ok.inj (hreceive.symm.trans hreceive'))
    exact hfollow
  · intro hfollow
    refine ⟨_, _, result, hreceive, ?_, hmessage, hfollow⟩
    rw [List.filter_append, filter_replicate, filter_cons hmessage]
    rfl

/-- The next message after one of which some fragments are left. -/
theorem follow_cons_of_some {b : MultiFragment} (hb : b.Short) (hmap : recvDataMap b.key = none)
    {data : List Str} {k : Nat}
    (hk : LastMissing data k) (bs : List MultiFragment) :
    Follow side (Function.update recvDataMap b.key (some data)) (b :: bs) ↔
      k < b.fs.length ∧ b.IsMessage (b.payloadBefore b.fs (k + 1) ++ (data.drop (k + 1)).flatten) ∧
        Follow side (afterLoss recvDataMap b (b.fs.drop (k + 1))) bs := by
  obtain ⟨pieces, hread, -, hfs⟩ := hb.readable
  by_cases hlt : k < b.fs.length
  · have hlt' : k < pieces.length := by rwa [hfs, List.length_mapIdx] at hlt
    have hreceive := hread.receive_after side hmap hk hlt'
    rw [← hfs, List.flatten_append, ← payloadBefore_eq hb.1 pieces.length, ← hfs] at hreceive
    constructor
    · rintro ⟨results, recvDataMap', result, hreceive', hresults, hmessage, hfollow⟩
      obtain ⟨rfl, rfl⟩ := Prod.mk.inj (Except.ok.inj (hreceive.symm.trans hreceive'))
      have hmem : result ∈ [result] := List.mem_singleton.mpr rfl
      rw [← hresults] at hmem
      have hne := hmessage.ne_nil
      have heq : result = b.payloadBefore b.fs (k + 1) ++ (data.drop (k + 1)).flatten := by
        obtain h | h := List.mem_append.mp (List.mem_filter.mp hmem).1
        · exact absurd (List.eq_of_mem_replicate h) hne
        · obtain h | h := List.mem_cons.mp h
          · exact h
          · exact absurd (List.eq_of_mem_replicate h) hne
      exact ⟨hlt, heq ▸ hmessage, hfollow⟩
    · rintro ⟨-, hmessage, hfollow⟩
      refine ⟨_, _, _, hreceive, ?_, hmessage, hfollow⟩
      rw [List.filter_append, filter_replicate, filter_cons hmessage, filter_replicate]
      rfl
  · have hle : pieces.length ≤ k := by
      rw [hfs, List.length_mapIdx] at hlt
      omega
    have hreceive := hread.receive_front side recvDataMap hk.1 hle (Nat.le_refl _)
    rw [List.take_of_length_le (by rw [List.length_mapIdx]), ← hfs] at hreceive
    constructor
    · rintro ⟨results, recvDataMap', result, hreceive', hresults, -⟩
      obtain ⟨rfl, -⟩ := Prod.mk.inj (Except.ok.inj (hreceive.symm.trans hreceive'))
      rw [filter_replicate] at hresults
      cases hresults
    · rintro ⟨hlt', -⟩
      exact absurd hlt' hlt

/-- A message that comes whole and comes out is a short one, if an entry left at its key has 255
places at most. -/
theorem Follow.short {b : MultiFragment} {bs : List MultiFragment} (h : Follow side recvDataMap (b :: bs))
    (hmap : ∀ data, recvDataMap b.key = some data → data.length ≤ 255) : b.Short := by
  obtain ⟨results, recvDataMap', result, hreceive, -, hmessage, -⟩ := h
  have hname := hmessage.length_tableName_le
  exact ⟨hname, length_fs_le hname hmap (fun _ hbuf => hbuf) (fun _ hbuf => isFragmentOf_of_mem hname hbuf) hreceive⟩

/-- What follows the loss of some fragments, over all messages that come. -/
theorem follow_afterLoss_iff {bs : List MultiFragment} {a : MultiFragment} (ha : a.fs.length ≤ 255) {came : List Str}
    (hsub : came.Sublist a.fs) (hne : came ≠ a.fs) (hnodup : a.fs.Nodup) (hkeys : ∀ b ∈ bs, b.key = a.key)
    (hmap : recvDataMap a.key = none) : Follow side (afterLoss recvDataMap a came) bs ↔ Recovers a came bs := by
  induction bs generalizing a came with
  | nil => exact Iff.rfl
  | cons b bs ih =>
    have hkey : b.key = a.key := hkeys b List.mem_cons_self
    have hrest : ∀ c ∈ bs, c.key = b.key := fun c hc => (hkeys c (List.mem_cons_of_mem b hc)).trans hkey.symm
    have hmap' : recvDataMap b.key = none := hkey ▸ hmap
    have hentry : ∀ data, afterLoss recvDataMap a came b.key = some data → data.length ≤ 255 := by
      intro data hdata
      rw [afterLoss] at hdata
      split at hdata
      · rw [hmap'] at hdata
        cases hdata
      · rw [hkey, Function.update_self] at hdata
        obtain rfl := Option.some.inj hdata
        rwa [kept, List.length_map]
    by_cases hb : b.Short
    · obtain ⟨pieces, hread, -, hfs⟩ := hb.readable
      have hnodup' : b.fs.Nodup := hfs ▸ hread.nodup
      have hdrop : ∀ k, b.fs.drop (k + 1) ≠ b.fs := by
        intro k heq
        have hlength := congrArg List.length heq
        have htwo := b.two_le
        rw [List.length_drop] at hlength
        omega
      have hnext : ∀ k, Follow side (afterLoss recvDataMap b (b.fs.drop (k + 1))) bs ↔
        Recovers b (b.fs.drop (k + 1)) bs :=
        fun k => ih hb.2 (List.drop_sublist (k + 1) b.fs) (hdrop k) hnodup' hrest hmap'
      rw [Recovers]
      by_cases hcame : came = []
      · subst hcame
        have hclean := ih hb.2 (List.nil_sublist b.fs) (fun h => by
          have htwo := b.two_le
          rw [← h] at htwo
          cases htwo) hnodup' hrest hmap'
        rw [afterLoss, if_pos rfl] at hclean ⊢
        rw [follow_cons_of_none hb hmap', hclean]
        simp only [hb, true_and, ne_eq, not_true_eq_false, false_and, or_false]
      · obtain ⟨k, hk⟩ := exists_lastMissing (nil_mem_kept (m := a.toSerialized) hnodup hsub hne)
        rw [afterLoss, if_neg hcame, ← hkey, follow_cons_of_some hb hmap' hk, hnext]
        simp only [hb, true_and, hcame, false_and, ne_eq, not_false_eq_true, false_or]
        constructor
        · rintro ⟨hlt, hmessage, hrecovers⟩
          exact ⟨k, hlt, hk, hmessage, hrecovers⟩
        · rintro ⟨l, hlt, hl, hmessage, hrecovers⟩
          obtain rfl := hk.unique hl
          exact ⟨hlt, hmessage, hrecovers⟩
    · constructor
      · intro hfollow
        exact absurd (hfollow.short hentry) hb
      · intro hrecovers
        rw [Recovers] at hrecovers
        exact absurd hrecovers.1 hb

/-- Some fragments of a message come and then other messages: these come out exactly
where they recover from the loss. -/
theorem followLoss_iff (side : Side) {a : MultiFragment} (ha : a.Short) {came : List Str} (hsub : came.Sublist a.fs)
    (hne : came ≠ a.fs) {bs : List MultiFragment} (hkeys : ∀ b ∈ bs, b.key = a.key) (hmap : recvDataMap a.key = none) :
    FollowLoss side recvDataMap came bs ↔ Recovers a came bs := by
  obtain ⟨pieces, hread, -, hfs⟩ := ha.readable
  have hnodup : a.fs.Nodup := hfs ▸ hread.nodup
  have hreceive := hread.receive_partial side hmap (hfs ▸ hsub) (hfs ▸ hne)
  rw [← hfs] at hreceive
  rw [← follow_afterLoss_iff ha.2 hsub hne hnodup hkeys hmap]
  constructor
  · rintro ⟨results, recvDataMap', hreceive', hfollow⟩
    obtain ⟨-, rfl⟩ := Prod.mk.inj (Except.ok.inj (hreceive.symm.trans hreceive'))
    exact hfollow
  · exact fun hfollow => ⟨_, _, hreceive, hfollow⟩

/-- Two messages on one socket are not mixed exactly where they are short and the
fragments of the one all come before those of the other; and the messages behind one
that has lost fragments come out exactly where they recover from the loss. -/
theorem not_mixed_iff (side : Side) (a : MultiFragment) {recvDataMap : RecvDataMap} (hmap : recvDataMap a.key = none) :
    (∀ (b : MultiFragment) (order : List Str), b.key = a.key → Interleaving a.fs b.fs order →
      (Separate side a.toSerialized b.toSerialized recvDataMap order ↔
        a.Short ∧ b.Short ∧ (order = a.fs ++ b.fs ∨ order = b.fs ++ a.fs))) ∧
    (a.Short → ∀ (came : List Str) (bs : List MultiFragment), came.Sublist a.fs → came ≠ a.fs →
    (∀ b ∈ bs, b.key = a.key) →
      (FollowLoss side recvDataMap came bs ↔ Recovers a came bs)) :=
  ⟨fun _ _ hkey horder => separate_iff side hkey horder hmap,
    fun ha _ _ hsub hne hkeys => followLoss_iff side ha hsub hne hkeys hmap⟩

/-- A result of two fragments for the table `t`. -/
def twoPieces (mngId : UInt32) (c : Char) : Serialized :=
  { mngId, tableName := ['t'], retStr := [c, c, c, c], key := [], sepSize := 116 }

def firstResult : MultiFragment :=
  { twoPieces 1 'a' with
    fs := [['a', 'a'], ['a', 'a']].mapIdx ((twoPieces 1 'a').fragment 2)
    fragments_eq_fs := by decide +kernel
    two_le := by decide
    fits := show 17 + 1 + 0 < 2 ^ 31 by decide }

def secondResult : MultiFragment :=
  { twoPieces 2 'b' with
    fs := [['b', 'b'], ['b', 'b']].mapIdx ((twoPieces 2 'b').fragment 2)
    fragments_eq_fs := by decide +kernel
    two_le := by decide
    fits := show 17 + 1 + 0 < 2 ^ 31 by decide }

/-- Two results that come one behind the other are not mixed. Where the second fragment of the
one is lost, the other does not come out; where nothing of it has come, the next two do. -/
theorem not_mixed_iff_oneBehind :
    Separate .connection firstResult.toSerialized secondResult.toSerialized (fun _ => none)
      (firstResult.fs ++ secondResult.fs) ∧
    ¬ FollowLoss .connection (fun _ => none) (firstResult.fs.take 1) [secondResult] ∧
    FollowLoss .connection (fun _ => none) [] [secondResult, secondResult] := by
  have hfirst : firstResult.Short := ⟨by decide, by decide⟩
  have hsecond : secondResult.Short := ⟨by decide, by decide⟩
  obtain ⟨hseparate, hloss⟩ := @not_mixed_iff .connection firstResult (fun _ => none) rfl
  refine ⟨?_, ?_, ?_⟩
  · exact (hseparate secondResult _ rfl (.append _ _)).mpr ⟨hfirst, hsecond, .inl rfl⟩
  · rw [hloss hfirst (firstResult.fs.take 1) [secondResult] (List.take_sublist _ _) (by decide +kernel)
      fun b hb => List.mem_singleton.mp hb ▸ rfl]
    rintro ⟨-, ⟨hnone, -⟩ | ⟨-, k, hk, hmissing, hmessage, -⟩⟩
    · cases hnone
    · obtain rfl | rfl : k = 0 ∨ k = 1 := by
        have hlt : k < 2 := hk
        omega
      · exact absurd hmissing.1 (by decide +kernel)
      · obtain ⟨header, ⟨info, hinfo, hname, -⟩, hresult⟩ := hmessage
        have hbytes : secondResult.payloadBefore secondResult.fs 2 ++
            ((firstResult.kept firstResult.fs (firstResult.fs.take 1)).drop 2).flatten = ['b', 'b', 'b', 'b'] := by
          decide +kernel
        have hread : (getProtobufHeaderInfo ['b', 'b', 'b', 'b']).toOption.map (·.header.table_name) = some [] := by
          decide +kernel
        rw [← hbytes, hresult, hinfo] at hread
        cases hname.symm.trans (Option.some.inj hread)
  · refine (hloss hfirst [] [secondResult, secondResult] (List.nil_sublist _) (by decide) ?_).mpr
      ⟨hsecond, .inl ⟨rfl, hsecond, .inl ⟨rfl, trivial⟩⟩⟩
    exact List.forall_mem_cons.mpr ⟨rfl, List.forall_mem_singleton.mpr rfl⟩

/-- The fragments of the two results in turn. -/
def inTurn : List Str :=
  [(twoPieces 1 'a').fragment 2 0 ['a', 'a'], (twoPieces 2 'b').fragment 2 0 ['b', 'b'],
    (twoPieces 1 'a').fragment 2 1 ['a', 'a'], (twoPieces 2 'b').fragment 2 1 ['b', 'b']]

/-- Two results whose fragments come in turn are mixed. -/
theorem inTurn_not_separate : ¬ ∀ (side : Side) (a b : MultiFragment) (order : List Str), b.key = a.key →
    Interleaving a.fs b.fs order → Separate side a.toSerialized b.toSerialized (fun _ => none) order := by
  intro h
  have horder : Interleaving firstResult.fs secondResult.fs inTurn := .left (.right (.left (.right .nil)))
  obtain ⟨results, recvDataMap', ra, rb, hreceive, hperm, -⟩ := h .connection firstResult secondResult inTurn rfl horder
  have hone :
      (receive .connection (fun _ => none) inTurn).toOption.map (fun p => (p.1.filter (· ≠ [])).length) = some 1 := by
    decide +kernel
  have htwo := hperm.length_eq
  rw [hreceive] at hone
  simp only [Except.toOption, Option.map_some, Option.some.injEq] at hone
  rw [hone] at htwo
  cases htwo

end IS
