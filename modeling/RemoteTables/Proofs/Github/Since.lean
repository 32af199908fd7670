import RemoteTables.Proofs.Calendar.Instants
import RemoteTables.Proofs.Sets.Constraints
import RemoteTables.Github.Filter

/-!
# The second from which on changes are wanted

The server leaves out what was changed before the second it is given, and what it leaves out nobody
looks at again. So that second may be early, by less than a second, and never late: nothing that a
constraint allows for the time of the last change lies before it (`updatedSince_never_late`). It is
enough that the domain has nothing below its lower bound, that instants are the highest kind of
literal, so that such a bound leaves instants only, and that the text of an instant is read as the
whole second that it began in.
-/

set_option autoImplicit false

namespace RemoteTables
namespace Github

/-- What is asked for is the lower bound of the time of the last change, written as an instant. -/
theorem updatedSince_eq {c : Constraint} {d : Domain} (hd : c.domain? "updated_at" = some d)
    {bound : Int64} (hbound : d.lowerBound? = some (.timestamp bound)) :
    updatedSince c = Calendar.renderInstant? bound.toInt := by
  rw [updatedSince, hd, Option.bind_some, hbound]

theorem exists_bound_of_updatedSince {c : Constraint} {text : String}
    (h : updatedSince c = some text) :
    ∃ d bound, c.domain? "updated_at" = some d ∧ d.lowerBound? = some (.timestamp bound) := by
  unfold updatedSince at h
  split at h
  · rename_i bound hbound
    obtain ⟨d, hd, hbound⟩ := Option.bind_eq_some_iff.mp hbound
    exact ⟨d, bound, hd, hbound⟩
  · cases h

/-- The instants that are written fit the numbers that are read. -/
theorem toInt_wholeSecond {bound : Int64} (hfirst : Calendar.firstMilli ≤ bound.toInt) :
    (Int64.ofInt (bound.toInt / 1000 * 1000)).toInt = bound.toInt / 1000 * 1000 := by
  have hleast := Calendar.milli_bounds.1
  have hmost := Int64.toInt_lt bound
  exact Int64.toInt_ofInt_of_le (by omega) (by omega)

/-- **The second from which on changes are wanted is never late.** Its text is read, as a field of an
entity is, as a whole second that is less than a second before the lower bound and not after it, and
whatever the domain has is an instant of that second or later. There is such a second for every lower
bound that is an instant with a date, whatever its sign and the digits of its year. -/
theorem updatedSince_never_late {c : Constraint} (hc : c.WellFormed) :
    (∀ text, updatedSince c = some text →
      ∃ (d : Domain) (bound second : Int64), c.domain? "updated_at" = some d ∧
        d.lowerBound? = some (.timestamp bound) ∧
        (∀ room, Calendar.instantDecoder room (.ofJson (.string text)) = .ok second) ∧
        second.toInt % 1000 = 0 ∧
        second.toInt ≤ bound.toInt ∧ bound.toInt < second.toInt + 1000 ∧
        ∀ v, d.includes v = true → ∃ u, v = .timestamp u ∧ second ≤ u) ∧
    ∀ (d : Domain) (bound : Int64), c.domain? "updated_at" = some d →
      d.lowerBound? = some (.timestamp bound) →
      ((updatedSince c).isSome = true ↔
        Calendar.firstMilli ≤ bound.toInt ∧ bound.toInt ≤ Calendar.lastMilli) := by
  constructor
  · intro text htext
    obtain ⟨d, bound, hd, hbound⟩ := exists_bound_of_updatedSince htext
    obtain ⟨entry, hentry, -, rfl⟩ := Constraint.mem_of_domain? hd
    rw [updatedSince_eq hd hbound] at htext
    have hdate := Calendar.renderInstant?_isSome_iff.mp (Option.isSome_of_eq_some htext)
    have hsecond := toInt_wholeSecond hdate.1
    refine ⟨entry.domain, bound, Int64.ofInt (bound.toInt / 1000 * 1000), hd, hbound,
      fun room => ?_, ?_, ?_, ?_, fun v hv => ?_⟩
    · rw [Calendar.instantDecoder]
      simp only [Decoder.string, Json.Fragment.ofJson, bind, Except.bind,
        Calendar.readInstant?_of_renderInstant? htext]
    · rw [hsecond]
      omega
    · rw [hsecond]
      omega
    · rw [hsecond]
      omega
    · obtain ⟨u, rfl, hu⟩ := Literal.exists_timestamp_of_le
        (Domain.lowerBound?_le (hc.2 entry hentry).2 hbound hv)
      refine ⟨u, rfl, Int64.le_iff_toInt_le.mpr ?_⟩
      have hu := Int64.le_iff_toInt_le.mp hu
      omega
  · intro d bound hd hbound
    rw [updatedSince_eq hd hbound]
    exact Calendar.renderInstant?_isSome_iff

/-- Issues changed in one of two periods, the earlier of which begins a millisecond before the year
zero. -/
def changedIssues : Constraint :=
  ⟨[⟨⟨"owner", .varchar⟩, .single (.varchar "o")⟩,
    ⟨⟨"updated_at", .timestamp⟩, .ranges [.greaterThan (.timestamp 7000),
      .between (.timestamp (-62167219200001)) (.timestamp 5)]⟩]⟩

/-- They are asked for from the last second of the year before on, and that second is read back. -/
theorem updatedSince_never_late_changedIssues :
    updatedSince changedIssues = some "-0001-12-31T23:59:59Z" ∧
    ∃ second : Int64, second.toInt = -62167219201000 ∧
      ∀ room, Calendar.instantDecoder room (.ofJson (.string "-0001-12-31T23:59:59Z")) =
        .ok second := by
  have htext : updatedSince changedIssues = some "-0001-12-31T23:59:59Z" := by decide +kernel
  obtain ⟨hreads, -⟩ := updatedSince_never_late (c := changedIssues) (by decide +kernel)
  obtain ⟨d, bound, second, hd, hbound, hread, hwhole, hlow, hhigh, -⟩ := hreads _ htext
  obtain rfl := Option.some.inj hd
  obtain rfl := Literal.timestamp.inj (Option.some.inj hbound)
  have hmillis : (-62167219200001 : Int64).toInt = -62167219200001 := by decide
  exact ⟨htext, second, by omega, hread⟩

end Github
end RemoteTables
