import Muzi.Execution
import Muzi.Printf

/-!
`ToFormatString` of base/timestamp.cc. One thread keeps the broken-down time of the
last second it formatted. The key of that cache is the second alone, although the
time zone can change; and it starts out as second 0, with a time that no zone made.
-/

namespace Muzi

open Execution

structure Tm where
  year : Int
  mon : Int
  mday : Int
  hour : Int
  min : Int
  sec : Int

/-- What a zone makes of a second, up to the year 9999. -/
structure CivilTime where
  year : Fin 10000
  month : Fin 12
  -- counted from 0
  day : Fin 31
  hour : Fin 24
  min : Fin 60
  -- with a leap second
  sec : Fin 61
  deriving DecidableEq

/-- Years are counted from 1900, and days from 1. -/
def CivilTime.tm (t : CivilTime) : Tm where
  year := t.year.val - 1900
  mon := t.month.val
  mday := t.day.val + 1
  hour := t.hour.val
  min := t.min.val
  sec := t.sec.val

structure Timestamp where
  timeVal : Nat

namespace Timestamp

def kMicrosecondsPerSecond : Nat := 1000 * 1000

def getUsecs (t : Timestamp) : Nat := t.timeVal % kMicrosecondsPerSecond

def getSecs (t : Timestamp) : Nat := t.timeVal / kMicrosecondsPerSecond

/-- `%4d%02d%02d %02d:%02d:%02d.%06ld`. -/
def printed (tm : Tm) (usecs : Nat) : List Char :=
  Printf.blanks 4 (tm.year + 1900) ++ (Printf.zeros 2 (tm.mon + 1) ++ (Printf.zeros 2 tm.mday ++
    ([' '] ++ (Printf.zeros 2 tm.hour ++ ([':'] ++ (Printf.zeros 2 tm.min ++ ([':'] ++
      (Printf.zeros 2 tm.sec ++ (['.'] ++ Printf.zeros 6 usecs)))))))))

/-- The string that is returned: the first 24 characters of `t_fmt_buf`. -/
def shown (tm : Tm) (usecs : Nat) : List Char := (printed tm usecs).take 24

variable {Zone : Type} (convert : Zone → Nat → CivilTime)

structure State (Zone : Type) where
  zone : Zone
  timeBuf : Tm
  lastSecond : Nat
  /-- The second of the last `ToFormatString`, and the zone at that time. -/
  previous : Option (Nat × Zone)

def init (kUtcTimeZone : Zone) : State Zone where
  zone := kUtcTimeZone
  timeBuf := ⟨0, 0, 0, 0, 0, 0⟩
  lastSecond := 0
  previous := none

inductive Action (Zone : Type) where
  | setTimeZone (zone : Zone)
  | toFormatString (t : Timestamp)

def toFormatString (s : State Zone) (t : Timestamp) : List Char × State Zone :=
  let s := { s with previous := some (t.getSecs, s.zone) }
  let s := if t.getSecs ≠ s.lastSecond then
      { s with timeBuf := (convert s.zone t.getSecs).tm, lastSecond := t.getSecs }
    else s
  (shown s.timeBuf t.getUsecs, s)

def step (s : State Zone) : Action Zone → Option (State Zone)
  | .setTimeZone zone => some { s with zone := zone }
  | .toFormatString t => some (toFormatString convert s t).2

def plain (zone : Zone) (t : Timestamp) : List Char :=
  shown (convert zone t.getSecs).tm t.getUsecs

def HistoryFree (s : State Zone) : Action Zone → Prop
  | .setTimeZone _ => True
  | .toFormatString t => (toFormatString convert s t).1 = plain convert s.zone t

/-- The first call is not for the second 0; a call for the second of the last one finds a zone
that makes the same of it. -/
def Uncached (s : State Zone) : Action Zone → Prop
  | .setTimeZone _ => True
  | .toFormatString t =>
      match s.previous with
      | none => t.getSecs ≠ 0
      | some (sec, zone) => sec = t.getSecs → convert zone sec = convert s.zone sec

/-! The text. -/

theorem usecs_lt (t : Timestamp) : t.getUsecs < Printf.tens 6 := Nat.mod_lt _ (by decide)

structure Fields where
  year : Nat
  mon : Nat
  mday : Nat
  hour : Nat
  min : Nat
  sec : Nat
  usecs : Nat
  yearFits : year < Printf.tens 4
  monFits : mon < Printf.tens 2
  mdayFits : mday < Printf.tens 2
  hourFits : hour < Printf.tens 2
  minFits : min < Printf.tens 2
  secFits : sec < Printf.tens 2
  usecsFit : usecs < Printf.tens 6

namespace Fields

def text (f : Fields) : List Char :=
  Printf.blanks 4 f.year ++ (Printf.zeros 2 f.mon ++ (Printf.zeros 2 f.mday ++
    ([' '] ++ (Printf.zeros 2 f.hour ++ ([':'] ++ (Printf.zeros 2 f.min ++ ([':'] ++
      (Printf.zeros 2 f.sec ++ (['.'] ++ Printf.zeros 6 f.usecs)))))))))

theorem length_text (f : Fields) : f.text.length = 24 := by
  simp only [text, List.length_append, List.length_singleton,
    Printf.length_blanks (by decide) f.yearFits, Printf.length_zeros (by decide) f.monFits,
    Printf.length_zeros (by decide) f.mdayFits, Printf.length_zeros (by decide) f.hourFits,
    Printf.length_zeros (by decide) f.minFits, Printf.length_zeros (by decide) f.secFits,
    Printf.length_zeros (by decide) f.usecsFit]

theorem text_inj {f g : Fields} (same : f.text = g.text) : f = g := by
  obtain ⟨year, same⟩ := Printf.blanks_append_inj (by decide) f.yearFits g.yearFits same
  obtain ⟨mon, same⟩ := Printf.zeros_append_inj (by decide) f.monFits g.monFits same
  obtain ⟨mday, same⟩ := Printf.zeros_append_inj (by decide) f.mdayFits g.mdayFits same
  have same := List.append_cancel_left same
  obtain ⟨hour, same⟩ := Printf.zeros_append_inj (by decide) f.hourFits g.hourFits same
  have same := List.append_cancel_left same
  obtain ⟨min, same⟩ := Printf.zeros_append_inj (by decide) f.minFits g.minFits same
  have same := List.append_cancel_left same
  obtain ⟨sec, same⟩ := Printf.zeros_append_inj (by decide) f.secFits g.secFits same
  have same := List.append_cancel_left same
  have numbers := congrArg (Nat.ofDigitChars 10 · 0) same
  rw [Printf.ofDigitChars_zeros, Printf.ofDigitChars_zeros] at numbers
  cases f
  cases g
  cases year
  cases mon
  cases mday
  cases hour
  cases min
  cases sec
  cases numbers
  rfl

def ofCivil (t : CivilTime) (ts : Timestamp) : Fields where
  year := t.year
  mon := t.month + 1
  mday := t.day + 1
  hour := t.hour
  min := t.min
  sec := t.sec
  usecs := ts.getUsecs
  yearFits := t.year.isLt
  monFits := Nat.lt_of_le_of_lt t.month.isLt (by decide)
  mdayFits := Nat.lt_of_le_of_lt t.day.isLt (by decide)
  hourFits := Nat.lt_trans t.hour.isLt (by decide)
  minFits := Nat.lt_trans t.min.isLt (by decide)
  secFits := Nat.lt_trans t.sec.isLt (by decide)
  usecsFit := usecs_lt ts

/-- The start value of `t_time_buf`: a day 0 of January 1900. -/
def ofNothing (ts : Timestamp) : Fields where
  year := 1900
  mon := 1
  mday := 0
  hour := 0
  min := 0
  sec := 0
  usecs := ts.getUsecs
  yearFits := by decide
  monFits := by decide
  mdayFits := by decide
  hourFits := by decide
  minFits := by decide
  secFits := by decide
  usecsFit := usecs_lt ts

end Fields

open Fields

theorem shown_civil (t : CivilTime) (ts : Timestamp) :
    shown t.tm ts.getUsecs = (ofCivil t ts).text := by
  have year : ((t.year.val : Int) - 1900) + 1900 = (t.year.val : Nat) := by omega
  have whole : printed t.tm ts.getUsecs = (ofCivil t ts).text := by
    rw [printed, CivilTime.tm, year]
    rfl
  rw [shown, whole, List.take_of_length_le (Nat.le_of_eq (length_text _))]

theorem shown_nothing (ts : Timestamp) :
    shown ⟨0, 0, 0, 0, 0, 0⟩ ts.getUsecs = (ofNothing ts).text :=
  List.take_of_length_le (Nat.le_of_eq (length_text (ofNothing ts)))

theorem shown_inj {t other : CivilTime} {ts : Timestamp}
    (same : shown t.tm ts.getUsecs = shown other.tm ts.getUsecs) : t = other := by
  rw [shown_civil, shown_civil] at same
  have fields := text_inj same
  have year : t.year = other.year := Fin.val_inj.mp (congrArg Fields.year fields)
  have month : t.month = other.month := Fin.val_inj.mp (Nat.succ.inj (congrArg mon fields))
  have day : t.day = other.day := Fin.val_inj.mp (Nat.succ.inj (congrArg mday fields))
  have hour : t.hour = other.hour := Fin.val_inj.mp (congrArg Fields.hour fields)
  have min : t.min = other.min := Fin.val_inj.mp (congrArg Fields.min fields)
  have sec : t.sec = other.sec := Fin.val_inj.mp (congrArg Fields.sec fields)
  cases t
  cases other
  exact (CivilTime.mk.injEq ..).mpr ⟨year, month, day, hour, min, sec⟩

theorem shown_nothing_ne (t : CivilTime) (ts : Timestamp) :
    shown ⟨0, 0, 0, 0, 0, 0⟩ ts.getUsecs ≠ shown t.tm ts.getUsecs := by
  intro same
  rw [shown_civil, shown_nothing] at same
  have day := congrArg Fields.mday (text_inj same)
  exact absurd day.symm (Nat.succ_ne_zero _)

/-! The cache. -/

/-- What the thread keeps, as long as no string was wrong. -/
def Kept (s : State Zone) : Prop :=
  match s.previous with
  | none => s.lastSecond = 0 ∧ s.timeBuf = ⟨0, 0, 0, 0, 0, 0⟩
  | some (sec, zone) => s.lastSecond = sec ∧ s.timeBuf = (convert zone sec).tm

variable {convert} {s : State Zone}

theorem init_kept (convert : Zone → Nat → CivilTime) (kUtcTimeZone : Zone) :
    Kept convert (init kUtcTimeZone) := by
  simp [Kept, init]

/-- The cache is passed by, or what it holds is used. -/
theorem toFormatString_cases (s : State Zone) (t : Timestamp) :
    t.getSecs ≠ s.lastSecond ∧
        toFormatString convert s t = (plain convert s.zone t, {
          zone := s.zone
          timeBuf := (convert s.zone t.getSecs).tm
          lastSecond := t.getSecs
          previous := some (t.getSecs, s.zone) }) ∨
      t.getSecs = s.lastSecond ∧
        toFormatString convert s t = (shown s.timeBuf t.getUsecs, {
          s with previous := some (t.getSecs, s.zone) }) := by
  by_cases hit : t.getSecs = s.lastSecond
  · exact .inr ⟨hit, by simp [toFormatString, hit]⟩
  · exact .inl ⟨hit, by simp [toFormatString, hit, plain]⟩

theorem historyFree_iff (kept : Kept convert s) (action : Action Zone) :
    HistoryFree convert s action ↔ Uncached convert s action := by
  cases action with
  | setTimeZone zone => exact Iff.rfl
  | toFormatString t =>
      simp only [HistoryFree, Uncached]
      unfold Kept at kept
      cases before : s.previous with
      | none =>
          rw [before] at kept
          rcases toFormatString_cases s t with ⟨miss, answer⟩ | ⟨hit, answer⟩
          · rw [answer]
            exact iff_of_true rfl (kept.1 ▸ miss)
          · rw [answer, kept.2]
            exact iff_of_false (shown_nothing_ne _ t) (fun later => later (hit.trans kept.1))
      | some call =>
          rw [before] at kept
          rcases toFormatString_cases s t with ⟨miss, answer⟩ | ⟨hit, answer⟩
          · rw [answer]
            exact iff_of_true rfl fun same => absurd (kept.1.trans same).symm miss
          · have second : call.1 = t.getSecs := kept.1.symm.trans hit.symm
            rw [answer, kept.2, plain, ← second]
            exact ⟨fun same _ => shown_inj same, fun same => by rw [same rfl]⟩

theorem step_kept {next : State Zone} {action : Action Zone} (kept : Kept convert s)
    (met : Uncached convert s action) (stepped : step convert s action = some next) :
    Kept convert next := by
  cases action with
  | setTimeZone zone =>
      cases stepped
      exact kept
  | toFormatString t =>
      cases stepped
      rcases toFormatString_cases s t with ⟨miss, answer⟩ | ⟨hit, answer⟩
      · rw [answer]
        exact ⟨rfl, rfl⟩
      · rw [answer]
        unfold Kept at kept
        simp only [Uncached] at met
        cases before : s.previous with
        | none =>
            rw [before] at kept met
            exact absurd (hit.trans kept.1) met
        | some call =>
            rw [before] at kept met
            have second : call.1 = t.getSecs := kept.1.symm.trans hit.symm
            refine ⟨hit.symm, ?_⟩
            rw [kept.2, met second, second]

/-- Every string is the one without a cache exactly when no call hits the start value, and none
hits a second that another zone made. -/
theorem format_history_iff (convert : Zone → Nat → CivilTime) (kUtcTimeZone : Zone)
    (actions : List (Action Zone)) :
    Along (step convert) (HistoryFree convert) (init kUtcTimeZone) actions ↔
      Along (step convert) (Uncached convert) (init kUtcTimeZone) actions :=
  along_congr (Kept convert) (fun _ _ _ kept met stepped => step_kept kept met stepped)
    (fun _ action kept => historyFree_iff kept action) (init_kept convert kUtcTimeZone) actions

/-- The first day of 1970 in the zone so many hours east. -/
def hoursEast (hours sec : Nat) : CivilTime where
  year := 1970
  month := 0
  day := 0
  hour := Fin.ofNat 24 (sec / 3600 + hours)
  min := Fin.ofNat 60 (sec / 60)
  sec := Fin.ofNat 61 (sec % 60)

/-- `Timestamp(12345)` before any other is a day 0 of 1900; and three seconds after the epoch
are formatted for the old zone behind a `SetTimeZone`. -/
theorem cache_hits :
    (toFormatString hoursEast (init 0) ⟨12345⟩).1 = "19000100 00:00:00.012345".toList ∧
      plain hoursEast 0 ⟨12345⟩ = "19700101 00:00:00.012345".toList ∧
    ∃ s, run (step hoursEast) (init 0) [.toFormatString ⟨3000000⟩, .setTimeZone 1] = some s ∧
      s.zone = 1 ∧
      (toFormatString hoursEast s ⟨3000000⟩).1 = "19700101 00:00:03.000000".toList ∧
      plain hoursEast 1 ⟨3000000⟩ = "19700101 01:00:03.000000".toList := by
  refine ⟨by decide +kernel, by decide +kernel, _, rfl, rfl, ?_⟩
  decide +kernel

end Timestamp

end Muzi
