import Shopping.Proof.Packing

/-!
# What is unpacked fits

The other direction of `Proof/Packing.lean`, for any bytes at all: whatever message a frame
unpacks to fits the format again (`fromZmq_fits`), and so does the list of a blob, although
nobody checks it. So what a node or a client has once accepted it can pass on, and it comes
back alike (`repacked`).
-/

namespace Shopping

open Lib Lib.Msgpack

/-- Numbers are bounded by their type. -/
theorem yields_any {T : Type} (conv : Converter T) : Yields conv fun _ => True :=
  fun _ _ _ _ _ _ => trivial

/-- Both sides of a counter are maps that were read. -/
theorem PNCounter.yields : Yields PNCounter.convert PNCounter.Fits := by
  intro v old c hv hold h
  have hcounts : Yields (convertMap convertUInt64) (FitsMap fun _ => True) :=
    (yields_any convertUInt64).map trivial
  simp only [PNCounter.convert, Option.bind_eq_bind, Option.bind_eq_some_iff] at h
  obtain ⟨vs, hvs, pos, hpos, neg, hneg, heq⟩ := h
  cases heq
  exact ⟨hcounts.field hv hvs hold.1 hpos, hcounts.field hv hvs hold.2 hneg⟩

theorem ShoppingItem.yields : Yields ShoppingItem.convert ShoppingItem.Fits := by
  intro v old it hv hold h
  obtain ⟨huid, hname, hdesired, hcurrent⟩ := hold
  simp only [ShoppingItem.convert, Option.bind_eq_bind, Option.bind_eq_some_iff] at h
  obtain ⟨vs, hvs, uid, h0, name, h1, desired, h2, current, h3, heq⟩ := h
  cases heq
  exact ⟨yields_str.field hv hvs huid h0, yields_str.field hv hvs hname h1,
    PNCounter.yields.field hv hvs hdesired h2, PNCounter.yields.field hv hvs hcurrent h3⟩

/-- Whatever converts to a list has its strings and containers from a value read. -/
theorem ShoppingList.yields : Yields ShoppingList.convert ShoppingList.Fits := by
  intro v old l hv hold h
  obtain ⟨huid, hname, helements, hadd, hremove⟩ := hold
  have htags : Yields (convertMap convertSet) (FitsMap FitsTags) := yields_set.map (by decide)
  have hitems : Yields (convertMap ShoppingItem.convert) (FitsMap ShoppingItem.Fits) :=
    ShoppingItem.yields.map (by decide)
  have hset : Yields (ORSet.convert ShoppingItem.convert) fun s =>
      FitsMap ShoppingItem.Fits s.elements ∧ FitsMap FitsTags s.addSet ∧
        FitsMap FitsTags s.removeSet := by
    intro v old s hv hold h
    simp only [ORSet.convert, Option.bind_eq_bind, Option.bind_eq_some_iff] at h
    obtain ⟨vs, hvs, elements, h0, addSet, h1, removeSet, h2, heq⟩ := h
    cases heq
    exact ⟨hitems.field hv hvs hold.1 h0, htags.field hv hvs hold.2.1 h1,
      htags.field hv hvs hold.2.2 h2⟩
  simp only [ShoppingList.convert, Option.bind_eq_bind, Option.bind_eq_some_iff] at h
  obtain ⟨vs, hvs, uid, h0, name, h1, items, h2, heq⟩ := h
  cases heq
  exact ⟨yields_str.field hv hvs huid h0, yields_str.field hv hvs hname h1,
    hset.field hv hvs ⟨helements, hadd, hremove⟩ h2⟩

theorem NodeInfo.yields : Yields NodeInfo.convert NodeInfo.Fits := by
  intro v old info hv hold h
  simp only [NodeInfo.convert, Option.bind_eq_bind, Option.bind_eq_some_iff] at h
  obtain ⟨vs, hvs, nodeId, h0, host, h1, _, _, _, _, _, _, _, _, _, _, heq⟩ := h
  cases heq
  exact ⟨yields_str.field hv hvs hold.1 h0, yields_str.field hv hvs hold.2 h1⟩

/-- Whatever converts to a message fits, down to the entries of its nodes. -/
theorem Message.yields : Yields Message.convert Message.Fits := by
  intro v old m hv hold h
  obtain ⟨horigin, hlists, hnodes⟩ := hold
  have hvec : Yields (convertVec ShoppingList.convert) _ := ShoppingList.yields.vec (by decide)
  have hinfos : Yields (convertVec NodeInfo.convert) _ := NodeInfo.yields.vec (by decide)
  simp only [Message.convert, Option.bind_eq_bind, Option.bind_eq_some_iff] at h
  obtain ⟨vs, hvs, op, -, origin, h1, ts, -, lists, h3, nodes, h4, heq⟩ := h
  cases heq
  exact ⟨yields_str.field hv hvs horigin h1, hvec.field hv hvs hlists h3,
    hinfos.field hv hvs hnodes h4⟩

/-- **A message that unpacks fits**, although `from_zmq` checks no length. -/
theorem Message.fromZmq_fits {op : OpType} {ts : UInt64} {frame : Bytes} {m : Message}
    (h : Message.fromZmq op ts frame = some m) : m.Fits := by
  unfold Message.fromZmq at h
  rw [Option.bind_eq_some_iff] at h
  obtain ⟨v, hv, hm⟩ := h
  have hblank : Message.Fits { op, origin := [], ts } := by simp [Message.Fits]
  exact Message.yields v _ m (unpack_sized hv) hblank hm

/-- A list that unpacks from a blob fits. -/
theorem ShoppingList.readBlob_fits {blob : Bytes} {l : ShoppingList}
    (h : BlobDb.readBlob blob = .ok (some l)) : l.Fits := by
  unfold BlobDb.readBlob at h
  split at h
  · cases h
  · split at h
    · rename_i l' hl
      cases h
      rw [Option.bind_eq_some_iff] at hl
      obtain ⟨v, hv, hl⟩ := hl
      exact ShoppingList.yields v _ l (unpack_sized hv) (by decide) hl
    · cases h

/-- **Whatever is accepted can be passed on.** The message that any bytes unpack to, packed again
in whatever order, unpacks to one that is alike and whose lists are used as its own; and so does
the list of any blob. -/
theorem repacked :
    (∀ frame op ts m, Message.fromZmq op ts frame = some m → ∀ order op' ts',
      ∃ m', Message.fromZmq op' ts' (m.toZmq order) = some m' ∧ m.Alike m' ∧
        List.Forall₂ ShoppingList.SameUse m.lists m'.lists) ∧
    ∀ blob l, BlobDb.readBlob blob = .ok (some l) → ∀ order,
      ∃ l', BlobDb.readBlob (l.pack order) = .ok (some l') ∧ l.Alike l' ∧ l.SameUse l' := by
  constructor
  · intro frame op ts m h order op' ts'
    obtain ⟨m', hm', hal⟩ := (Message.fromZmq_fits h).fromZmq_toZmq order op' ts'
    exact ⟨m', hm', hal, hal.lists.imp fun _ _ => ShoppingList.Alike.sameUse⟩
  · intro blob l h order
    obtain ⟨l', hl', hal⟩ := (ShoppingList.readBlob_fits h).readBlob_pack order
    exact ⟨l', hl', hal, hal.sameUse⟩

/-- The blob of a list with one item, added under two tags of which one is listed twice, with
longer heads than needed. -/
def paddedBlob : Bytes :=
  [0x93, 0xd9, 0x01, 0x6c, 0xa1, 0x4c,
    0x93, 0xde, 0x00, 0x01, 0xa1, 0x69,
      0x94, 0xa1, 0x69, 0xda, 0x00, 0x01, 0x49, 0x92, 0x81, 0xa1, 0x6f, 0xcc, 0x02, 0x80,
        0x92, 0x80, 0xde, 0x00, 0x00,
      0x81, 0xa1, 0x69, 0xdc, 0x00, 0x03, 0xa1, 0x32, 0xa1, 0x31, 0xa1, 0x32,
      0x80]

/-- A `GOSSIP_LISTS` with that list. -/
def paddedFrame : Bytes :=
  [0x95, 0xcc, 0x06, 0xa1, 0x6e, 0xcd, 0x00, 0x05, 0xdc, 0x00, 0x01] ++ paddedBlob ++ [0x90]

/-- What is in the list: an item that two are wanted of, and its tags. -/
def Padded (l : ShoppingList) : Prop :=
  l.uid = str "l" ∧ l.getAllItems.map (fun it => (it.uid, it.getDesiredQuantity)) = [(str "i", 2)] ∧
    l.items.addSet.lookup (str "i") = some {str "1", str "2"}

instance : DecidablePred Padded := fun _ => inferInstanceAs (Decidable (_ ∧ _ ∧ _))

theorem repacked_padded :
    (∃ m m', Message.fromZmq .ensureList 5 paddedFrame = some m ∧ (∃ l ∈ m.lists, Padded l) ∧
      Message.fromZmq .getList 0 (m.toZmq fun _ => .sorted) = some m' ∧
      m.toZmq (fun _ => .sorted) ≠ paddedFrame ∧ m.Alike m' ∧
      List.Forall₂ ShoppingList.SameUse m.lists m'.lists) ∧
    ∃ l l', BlobDb.readBlob paddedBlob = .ok (some l) ∧ Padded l ∧
      BlobDb.readBlob (l.pack .sorted) = .ok (some l') ∧ l.pack .sorted ≠ paddedBlob ∧
      l.Alike l' ∧ l.SameUse l' := by
  constructor
  · have hframe : ((Message.fromZmq .ensureList 5 paddedFrame).any fun m =>
        decide ((∃ l ∈ m.lists, Padded l) ∧ m.toZmq (fun _ => .sorted) ≠ paddedFrame)) = true := by
      decide +kernel
    obtain ⟨m, hm, hpadded⟩ := (Option.any_eq_true ..).1 hframe
    obtain ⟨hpadded, hne⟩ := of_decide_eq_true hpadded
    obtain ⟨m', hm', hal, huse⟩ := repacked.1 _ _ _ m hm (fun _ => .sorted) .getList 0
    exact ⟨m, m', hm, hpadded, hm', hne, hal, huse⟩
  · have hblob : (BlobDb.readBlob paddedBlob).toOption.join.any (fun l =>
        decide (Padded l ∧ l.pack .sorted ≠ paddedBlob)) = true := by
      decide +kernel
    obtain ⟨l, hl, hpadded⟩ := (Option.any_eq_true ..).1 hblob
    obtain ⟨hpadded, hne⟩ := of_decide_eq_true hpadded
    have hl : BlobDb.readBlob paddedBlob = .ok (some l) := by
      rw [Option.join_eq_some_iff] at hl
      cases hb : BlobDb.readBlob paddedBlob with
      | ok stored => rw [hb] at hl; cases hl; rfl
      | error e => rw [hb] at hl; cases hl
    obtain ⟨l', hl', hal, huse⟩ := repacked.2 _ l hl .sorted
    exact ⟨l, l', hl, hpadded, hl', hne, hal, huse⟩

end Shopping
