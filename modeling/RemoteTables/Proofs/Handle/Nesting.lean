import RemoteTables.Proofs.Handle.Wire
import RemoteTables.Proofs.Json.Yielding

/-!
# How deep decoded handles nest

The types of columns are the only part of a handle that nests as deep as it likes, and whoever reads
one from the wire has let it in only as deep as there was room. What is left of the room around the
types is counted here, from the inside out. It is as much as writing them takes again, so what was
read can be written and read once more.
-/

set_option autoImplicit false

namespace RemoteTables

open Decoder

theorem ColumnType.depth_plain {name : String} {type : ColumnType} (h : plain name = .ok type) :
    type.depth = 0 := by
  unfold plain at h
  repeat' split at h
  all_goals cases h
  all_goals rfl

theorem ColumnType.yields_decoder :
    ColumnType.decoder.Yields fun room type => type.depth ≤ room := by
  have hplain (bound room : Nat) (name : String) (type : ColumnType) (h : plain name = .ok type) :
      type.depth ≤ bound := by
    rw [depth_plain h]
    exact Nat.zero_le bound
  intro room
  induction room with
  | zero =>
    intro fragment type h
    have hcontent (inner : Nat) (name : String) (fragment : Json.Fragment) (type : ColumnType)
        (h : Except.error DecodeFault.malformed = .ok type) : type.depth ≤ 0 := by cases h
    exact yields_variant (p := fun _ type => type.depth ≤ 0) (hplain 0) hcontent 0 fragment type h
  | succ room ih =>
    intro fragment type h
    -- the room of an element is fixed by the recursion, whatever the room around it is
    refine yields_variant (p := fun _ type => type.depth ≤ room + 1) (hplain _) ?_ _ _ _ h
    intro inner name fragment type h
    split at h
    next =>
      obtain ⟨element, helement, h⟩ := bind_eq_ok_iff.mp h
      obtain rfl := Except.ok.inj h
      exact Nat.succ_le_succ (ih fragment element helement)
    next =>
      obtain ⟨_, -, h⟩ := bind_eq_ok_iff.mp h
      exact hplain _ inner name type h

theorem ColumnRef.yields_decoder :
    ColumnRef.decoder.Yields fun room c => c.type.depth < room :=
  Record.yields_pair (yields_true string) ColumnType.yields_decoder (fun _ _ h => by cases h)
    (fun _ _ h => by cases h) fun _ _ _ _ htype => Nat.lt_succ_of_le htype

theorem Constraint.yields_entryDecoder :
    entryDecoder.Yields fun room entry => entry.column.type.depth + 1 < room :=
  Record.yields_pair ColumnRef.yields_decoder (yields_true Domain.decoder) (fun _ _ h => by cases h)
    (fun _ _ h => by cases h) fun _ _ _ hcolumn _ => Nat.succ_lt_succ hcolumn

theorem Constraint.yields_decoder : Constraint.decoder.Yields fun room c =>
    ∀ entry ∈ c.entries, entry.column.type.depth + 3 < room := by
  have hentries : (Decoder.list entryDecoder).Yields fun room entries =>
      ∀ entry ∈ entries, entry.column.type.depth + 2 < room :=
    (Constraint.yields_entryDecoder.mono fun _ _ h => Nat.succ_lt_succ h).list
  refine Record.Yields.decoder ((Record.yields_required hentries).map fun room entries h => ?_)
  exact fun entry he => Nat.succ_lt_succ (h entry he)

theorem TableHandle.yields_decoder : TableHandle.decoder.Yields fun room h =>
    ∀ entry ∈ h.constraint.entries, entry.column.type.depth + 4 < room := by
  -- the constraint is known from the second field on, and the others do not matter
  have htable : (TableHandle.mk <$> Record.required "schemaTableName" TableName.decoder).Yields
      fun _ f => ∀ c offset limit stride order, (f c offset limit stride order).constraint = c :=
    (Record.yields_required (yields_true _)).map fun _ _ _ _ _ _ _ _ => rfl
  have hconstraint : (TableHandle.mk <$> Record.required "schemaTableName" TableName.decoder
      <*> Record.required "constraint" Constraint.decoder).Yields fun room f =>
        ∀ offset limit stride order, ∀ entry ∈ (f offset limit stride order).constraint.entries,
          entry.column.type.depth + 4 < room + 1 := by
    refine htable.seq (Record.yields_required Constraint.yields_decoder) ?_
    intro room f c hf hc offset limit stride order
    rw [hf]
    exact fun entry he => Nat.succ_lt_succ (hc entry he)
  exact Record.Yields.decoder hconstraint.seq_any.seq_any.seq_any.seq_any

/-- **The types of a decoded split's columns leave room for what is around them.** -/
theorem Split.yields_decoder : Split.decoder.Yields fun room split =>
    ∀ entry ∈ split.handle.constraint.entries, entry.column.type.depth + 5 < room :=
  Record.yields_pair TableHandle.yields_decoder (yields_true (Decoder.list string))
    (fun _ _ _ => trivial) (fun _ _ _ => trivial)
    fun _ _ _ hhandle _ entry he => Nat.succ_lt_succ (hhandle entry he)

end RemoteTables
