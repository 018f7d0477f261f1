import Mathlib.Data.Rat.Defs
import Mathlib.Algebra.Order.Field.Rat
import Mathlib.Tactic.Linarith
import Mathlib.Data.List.Induction
import Mathlib.Logic.Function.Basic
import SimpleRpc.Lib.SlidingWindow

/-!
# Aggregate QPS (`rlog/log_service_impl.cc`)

Clients report how often something happened since their last report. The server keeps a running
total for each metric, a record a call, and from time to time prints how often it happened in the
last 1, 5, 15, 30 and 60 seconds: the difference between the newest total and the oldest one in
the window.

## Layers

- **Code**: `aggregateQps`, with the trimming and the backwards scan as functions of the records
- **Abstract**: `window`, the calls of a metric in the last `r` seconds, and their sum
- **Connection**: `tracks_run`, the records are the running totals of the calls, trimmed

## Main results

- `increment_eq`: the scan gives the sum over the window without the first call in it
- `reported_increment_iff`: so a report is right exactly if that call counted nothing
- `first_call_not_reported`: a metric with one call

## Model

- `agg_qps_l_` is held over the whole body, so a call is one step; the time of day is its argument
- times are exact; `agg_count` is an `Int`, so that its wrap as an `i64`, which takes more than 2^32 calls,
  is left out
- `increment` is the difference itself; as a `double` it is exact below 2^53, and the rounding beyond
  that is left out
- a `std::list` is a list; what is missing in a map is made when it is asked for
-/

namespace SimpleRpc.Rlog

open SimpleRpc.Lib

/-- `std::string metric_name` -/
abbrev Metric := List UInt8

/-- `struct agg_qps_record` -/
structure AggQpsRecord where
  aggCount : Int
  tm : ℚ
  deriving DecidableEq

/-- A call of `aggregate_qps`, with what `gettimeofday` says during it. -/
structure QpsCall where
  metricName : Metric
  incr : Int32
  now : ℚ
  deriving DecidableEq

/-! ## The code -/

/-- `new_rec`, pushed to the back of `records` -/
def pushRecord (records : List AggQpsRecord) (incr : Int32) (now : ℚ) : List AggQpsRecord :=
  let aggCount := match records.getLast? with
    | none => incr.toInt
    | some back => back.aggCount + incr.toInt
  records ++ [⟨aggCount, now⟩]

/-- `while (now - records.front().tm > 5 * 60)`: only keep 5min qps info. -/
def trim (now : ℚ) (records : List AggQpsRecord) : List AggQpsRecord :=
  records.dropWhile fun front => 5 * 60 < now - front.tm

/-- `const int report_intervals[]` -/
def reportIntervals : List Int := [1, 5, 15, 30, 60]

/-- The loop from `records.rbegin()` on, with the `increment` so far. -/
def scanBack (now : ℚ) (reportInterval backCount increment : Int) : List AggQpsRecord → Int
  | [] => increment
  | it :: rest =>
    if now - it.tm < reportInterval then
      scanBack now reportInterval backCount (backCount - it.aggCount) rest
    else increment

/-- `increment`, after the loop. -/
def increment (now : ℚ) (records : List AggQpsRecord) (reportInterval : Int) : Int :=
  match records.getLast? with
  | none => -1
  | some back => scanBack now reportInterval back.aggCount (-1) records.reverse

/-- A report: the increment of each interval, and the rates in the line that is printed, if there
    are any. -/
structure QpsReport where
  increments : List (Int × Int)
  qpsOstr : List (Int × ℚ)
  deriving DecidableEq

/-- The members of `RLogServiceImpl` that `agg_qps_l_` guards, and the interval of reports. -/
structure AggQps where
  aggQps : Metric → List AggQpsRecord
  lastQpsTm : Metric → ℚ
  qpsInterval : ℚ

namespace AggQps

/-- No call has arrived. -/
def init (qpsInterval : ℚ) : AggQps := ⟨fun _ => [], fun _ => 0, qpsInterval⟩

/-- `RLogServiceImpl::aggregate_qps` -/
def aggregateQps (s : AggQps) (c : QpsCall) : AggQps × Option QpsReport :=
  let records := trim c.now (pushRecord (s.aggQps c.metricName) c.incr c.now)
  let s' := { s with aggQps := Function.update s.aggQps c.metricName records }
  if s.qpsInterval ≤ c.now - s.lastQpsTm c.metricName then
    let increments := reportIntervals.map fun r => (r, increment c.now records r)
    let qpsOstr := (increments.filter fun i => 0 < i.2).map fun i => (i.1, (i.2 : ℚ) / i.1)
    ({ s' with lastQpsTm := Function.update s.lastQpsTm c.metricName c.now },
      some ⟨increments, qpsOstr⟩)
  else (s', none)

/-- The calls in the order in which they take `agg_qps_l_`. -/
def run (qpsInterval : ℚ) (calls : List QpsCall) : AggQps :=
  calls.foldl (fun s c => (s.aggregateQps c).1) (init qpsInterval)

theorem aggregateQps_aggQps (s : AggQps) (c : QpsCall) :
    (s.aggregateQps c).1.aggQps = Function.update s.aggQps c.metricName
      (trim c.now (pushRecord (s.aggQps c.metricName) c.incr c.now)) := by
  unfold aggregateQps
  split <;> rfl

end AggQps

/-! ## Windows of calls -/

/-- The calls for one metric. -/
def callsOf (metricName : Metric) (calls : List QpsCall) : List QpsCall :=
  calls.filter fun c => c.metricName = metricName

theorem callsOf_concat_same (calls : List QpsCall) (c : QpsCall) :
    callsOf c.metricName (calls ++ [c]) = callsOf c.metricName calls ++ [c] := by
  simp [callsOf, List.filter_append]

theorem callsOf_concat_other {metricName : Metric} {c : QpsCall} (hne : c.metricName ≠ metricName)
    (calls : List QpsCall) : callsOf metricName (calls ++ [c]) = callsOf metricName calls := by
  simp [callsOf, List.filter_append, hne]

/-- Less than `r` seconds ago. -/
def QpsCall.recent (now : ℚ) (r : Int) (c : QpsCall) : Bool := now - c.now < r

/-- A record made less than `r` seconds ago. -/
def AggQpsRecord.recent (now : ℚ) (r : Int) (it : AggQpsRecord) : Bool := now - it.tm < r

/-- What a report at `now` should count: the calls of the last `r` seconds. -/
def window (now : ℚ) (r : Int) (calls : List QpsCall) : List QpsCall :=
  calls.filter (QpsCall.recent now r)

/-- How often it happened, by these calls. -/
def total (calls : List QpsCall) : Int := (calls.map fun c => c.incr.toInt).sum

/-- The clock does not go back. -/
def Ordered (calls : List QpsCall) : Prop := calls.Pairwise fun a b => a.now ≤ b.now

/-- The record of a call, with the total up to it. -/
def QpsCall.record (aggCount : Int) (c : QpsCall) : AggQpsRecord := ⟨aggCount, c.now⟩

/-- The records of all calls. -/
def totals : List QpsCall → List AggQpsRecord :=
  running QpsCall.record (fun c => c.incr.toInt) 0

/-- What comes after a call in the window is in the window. -/
theorem Ordered.staysIn {calls : List QpsCall} (h : Ordered calls) (now : ℚ) (r : Int) :
    StaysIn (QpsCall.recent now r) calls :=
  h.imp fun {a b} hab ha => by
    have ha' : now - a.now < r := of_decide_eq_true ha
    exact decide_eq_true (by linarith)

theorem totals_concat (calls : List QpsCall) (c : QpsCall) :
    totals (calls ++ [c]) = totals calls ++ [⟨total calls + c.incr.toInt, c.now⟩] := by
  rw [totals, running_append, zero_add]
  rfl

/-! ## The records -/

/-- The newest record is never trimmed. -/
theorem trim_concat (now : ℚ) (records : List AggQpsRecord) (aggCount : Int) :
    trim now (records ++ [⟨aggCount, now⟩]) = trim now records ++ [⟨aggCount, now⟩] :=
  dropWhile_concat (by simp) records

/-- So it always has the total of all calls. -/
theorem trim_totals_getLast? (calls : List QpsCall) (c : QpsCall) :
    (trim c.now (totals (calls ++ [c]))).getLast? = some ⟨total (calls ++ [c]), c.now⟩ := by
  rw [totals_concat, trim_concat, List.getLast?_concat]
  simp [total]

/-- Trimming later takes what trimming earlier has taken. -/
theorem trim_trim {now now' : ℚ} (hle : now ≤ now') (records : List AggQpsRecord) :
    trim now' (trim now records) = trim now' records := by
  refine dropWhile_dropWhile (fun record hold => ?_) records
  have hold' : 5 * 60 < now - record.tm := of_decide_eq_true hold
  exact decide_eq_true (by linarith)

/-- The records of a metric after `calls`: their running totals, trimmed at the last one. -/
def Tracks (calls : List QpsCall) (records : List AggQpsRecord) : Prop :=
  calls = [] ∧ records = [] ∨
    ∃ cs c, calls = cs ++ [c] ∧ records = trim c.now (totals (cs ++ [c]))

/-- **Step**: a call adds its total, and trims. -/
theorem Tracks.push {calls : List QpsCall} {records : List AggQpsRecord} (h : Tracks calls records)
    {c : QpsCall} (hord : Ordered (calls ++ [c])) :
    trim c.now (pushRecord records c.incr c.now) = trim c.now (totals (calls ++ [c])) := by
  rcases h with ⟨rfl, rfl⟩ | ⟨cs, c₀, rfl, rfl⟩
  · have hone : totals ([] ++ [c]) = [⟨c.incr.toInt, c.now⟩] := by
      rw [totals_concat]
      simp [totals, total, running]
    rw [hone]
    rfl
  · have hle : c₀.now ≤ c.now :=
      (List.pairwise_append.mp hord).2.2 c₀ (by simp) c (by simp)
    rw [pushRecord, trim_totals_getLast?, trim_concat, trim_trim hle, totals_concat (cs ++ [c₀]) c,
      trim_concat]

/-- **Run**: after any calls the records of each metric are the running totals of its calls. -/
theorem tracks_run (qpsInterval : ℚ) (metricName : Metric) (calls : List QpsCall)
    (hord : Ordered (callsOf metricName calls)) :
    Tracks (callsOf metricName calls) ((AggQps.run qpsInterval calls).aggQps metricName) := by
  induction calls using List.reverseRecOn with
  | nil => exact .inl ⟨rfl, rfl⟩
  | append_singleton calls c ih =>
    rw [AggQps.run, List.foldl_concat, AggQps.aggregateQps_aggQps]
    by_cases hm : c.metricName = metricName
    · subst hm
      rw [callsOf_concat_same] at hord ⊢
      have hprev := ih (hord.sublist (List.sublist_append_left ..))
      rw [Function.update_self]
      exact .inr ⟨_, c, rfl, hprev.push hord⟩
    · rw [callsOf_concat_other hm] at hord ⊢
      rw [Function.update_of_ne (Ne.symm hm)]
      exact ih hord

/-! ## The scan -/

theorem scanBack_eq (now : ℚ) (r backCount inc : Int) (records : List AggQpsRecord) :
    scanBack now r backCount inc records =
      (((records.takeWhile (AggQpsRecord.recent now r)).getLast?).map
        fun it => backCount - it.aggCount).getD inc := by
  induction records generalizing inc with
  | nil => rfl
  | cons it rest ih =>
    rw [scanBack]
    by_cases hin : now - it.tm < r
    · have hrecent : it.recent now r = true := decide_eq_true hin
      rw [if_pos hin, ih, List.takeWhile_cons_of_pos hrecent, List.getLast?_cons]
      cases (rest.takeWhile (AggQpsRecord.recent now r)).getLast? with
      | none => rfl
      | some oldest => rfl
    · rw [if_neg hin, List.takeWhile_cons_of_neg (by simpa [AggQpsRecord.recent] using hin)]
      rfl

/-- Where the records in the window are the last ones, the loop ends at the oldest of them. -/
theorem increment_of_filter {now : ℚ} {r : Int} {records more : List AggQpsRecord}
    {back oldest : AggQpsRecord} (hstays : StaysIn (AggQpsRecord.recent now r) records)
    (hback : records.getLast? = some back)
    (hfilter : records.filter (AggQpsRecord.recent now r) = oldest :: more) :
    increment now records r = back.aggCount - oldest.aggCount := by
  simp only [increment, hback, scanBack_eq, hstays.takeWhile_reverse, hfilter,
    List.getLast?_reverse, List.head?_cons, Option.map_some, Option.getD_some]

/-- Trimming takes nothing out of a window of at most five minutes. -/
theorem filter_trim (now : ℚ) {r : Int} (hr : r ≤ 5 * 60) (records : List AggQpsRecord) :
    (trim now records).filter (AggQpsRecord.recent now r) =
      records.filter (AggQpsRecord.recent now r) := by
  refine filter_dropWhile (fun record hold => ?_) records
  have hold' : 5 * 60 < now - record.tm := of_decide_eq_true hold
  have hr' : (r : ℚ) ≤ 5 * 60 := by exact_mod_cast hr
  exact decide_eq_false (by linarith)

/-- **The increment**, from the trimmed totals of calls up to `c`: the first call in the window is
    not in the difference. -/
theorem increment_eq {calls : List QpsCall} {c : QpsCall} (hord : Ordered (calls ++ [c])) {r : Int}
    (hpos : 0 < r) (hr : r ≤ 5 * 60) :
    ∃ first rest, window c.now r (calls ++ [c]) = first :: rest ∧
      increment c.now (trim c.now (totals (calls ++ [c]))) r =
        total (window c.now r (calls ++ [c])) - first.incr.toInt := by
  have hstays := hord.staysIn c.now r
  -- the call itself is in the window
  have hmem : c ∈ window c.now r (calls ++ [c]) := by
    rw [window, List.mem_filter]
    exact ⟨by simp, decide_eq_true (by rw [sub_self]; exact_mod_cast hpos)⟩
  obtain ⟨first, rest, hwindow⟩ := List.exists_cons_of_ne_nil (List.ne_nil_of_mem hmem)
  refine ⟨first, rest, hwindow, ?_⟩
  have hlook : ∀ (aggCount : Int) (x : QpsCall),
      (x.record aggCount).recent c.now r = x.recent c.now r := fun _ _ => rfl
  -- the oldest total in the window is that of `first`, on top of all calls before the window
  have hfilter : (trim c.now (totals (calls ++ [c]))).filter (AggQpsRecord.recent c.now r) =
      running QpsCall.record (fun c => c.incr.toInt)
        (total ((calls ++ [c]).takeWhile fun x => !x.recent c.now r)) (first :: rest) := by
    rw [filter_trim _ hr, totals, filter_running _ hlook hstays, zero_add, ← hwindow]
    rfl
  have hsorted : StaysIn (AggQpsRecord.recent c.now r) (trim c.now (totals (calls ++ [c]))) :=
    List.Pairwise.sublist (List.dropWhile_sublist _) (running_staysIn _ hlook hstays 0)
  have hsum : total (calls ++ [c]) =
      total ((calls ++ [c]).takeWhile fun x => !x.recent c.now r) +
        total (window c.now r (calls ++ [c])) := hstays.sum_eq _
  rw [running] at hfilter
  rw [increment_of_filter hsorted (trim_totals_getLast? calls c) hfilter]
  simp only [QpsCall.record]
  omega

/-! ## Reports -/

theorem reportIntervals_range {r : Int} (hr : r ∈ reportIntervals) : 0 < r ∧ r ≤ 60 := by
  revert r
  decide

/-- A call for which a report is made has scanned the trimmed totals of its metric. -/
theorem report_increments {qpsInterval : ℚ} {calls : List QpsCall} {c : QpsCall} {report : QpsReport}
    (hord : Ordered (callsOf c.metricName (calls ++ [c])))
    (hreport : ((AggQps.run qpsInterval calls).aggregateQps c).2 = some report) :
    report.increments = reportIntervals.map fun r => (r, increment c.now
      (trim c.now (totals (callsOf c.metricName calls ++ [c]))) r) := by
  rw [callsOf_concat_same] at hord
  have hprev : Ordered (callsOf c.metricName calls) := hord.sublist (List.sublist_append_left ..)
  have htracks := (tracks_run qpsInterval c.metricName calls hprev).push hord
  simp only [AggQps.aggregateQps, htracks] at hreport
  split at hreport
  · rw [← Option.some.inj hreport]
  · cases hreport

/-- **Reported QPS**: in every run in which the clock does not go back between the calls of a
    metric, a report has an increment for each interval, and the increment is the sum over all
    calls in the interval if and only if the first of these calls counted nothing. -/
theorem reported_increment_iff (qpsInterval : ℚ) (calls : List QpsCall) (c : QpsCall)
    (hord : Ordered (callsOf c.metricName (calls ++ [c]))) (report : QpsReport)
    (hreport : ((AggQps.run qpsInterval calls).aggregateQps c).2 = some report) :
    report.increments.map Prod.fst = reportIntervals ∧
    ∀ r inc, (r, inc) ∈ report.increments →
      (inc = total (window c.now r (callsOf c.metricName (calls ++ [c]))) ↔
        ∃ first rest, window c.now r (callsOf c.metricName (calls ++ [c])) = first :: rest ∧
          first.incr = 0) := by
  have hincs := report_increments hord hreport
  refine ⟨by rw [hincs]; rfl, fun r inc hmem => ?_⟩
  -- the intervals are the five of the source
  obtain ⟨hpos, hle⟩ : 0 < r ∧ r ≤ 60 := by
    rw [hincs] at hmem
    obtain ⟨r', hr', heq⟩ := List.mem_map.mp hmem
    obtain rfl : r' = r := congrArg Prod.fst heq
    exact reportIntervals_range hr'
  rw [callsOf_concat_same] at hord ⊢
  obtain ⟨first, rest, hwindow, hinc⟩ := increment_eq hord hpos (show r ≤ 5 * 60 by omega)
  have heq : inc = total (window c.now r (callsOf c.metricName calls ++ [c])) - first.incr.toInt := by
    rw [hincs] at hmem
    obtain ⟨r', -, heq⟩ := List.mem_map.mp hmem
    obtain ⟨rfl, rfl⟩ : r' = r ∧ _ = inc := Prod.mk.injEq .. ▸ heq
    exact hinc
  have hzero : first.incr = 0 ↔ first.incr.toInt = 0 := by
    rw [← Int32.toInt_inj]
    rfl
  constructor
  · -- nothing but the first call is missing
    intro hall
    exact ⟨first, rest, hwindow, hzero.mpr (by omega)⟩
  · -- which has counted nothing
    rintro ⟨first', rest', hwindow', hfirst⟩
    obtain rfl : first = first' := by
      rw [hwindow] at hwindow'
      exact (List.cons.inj hwindow').1
    rw [heq, hzero.mp hfirst, sub_zero]

/-- Two calls, the first of which counted nothing: in the windows that reach back to it, the seven
    of the second one are reported. -/
theorem report_after_zero :
    let calls : List QpsCall := [⟨[113], 0, 10⟩]
    let c : QpsCall := ⟨[113], 7, 12⟩
    ∃ report, ((AggQps.run 1 calls).aggregateQps c).2 = some report ∧ (5, 7) ∈ report.increments ∧
      7 = total (window c.now 5 (callsOf [113] (calls ++ [c]))) := by
  intro calls c
  have hord : Ordered (callsOf c.metricName (calls ++ [c])) := by
    unfold Ordered
    decide +kernel
  have hreport : ((AggQps.run 1 calls).aggregateQps c).2 =
      some ⟨[(1, 0), (5, 7), (15, 7), (30, 7), (60, 7)],
        [(5, 7 / 5), (15, 7 / 15), (30, 7 / 30), (60, 7 / 60)]⟩ := by decide +kernel
  refine ⟨_, hreport, by decide, ?_⟩
  exact ((reported_increment_iff 1 calls c hord _ hreport).2 5 7 (by decide)).mpr
    ⟨⟨[113], 0, 10⟩, [c], by decide +kernel, rfl⟩

/-- **A metric with one call**, which counted one: the report has zero for every interval, and no
    line is printed. -/
theorem first_call_not_reported :
    let c : QpsCall := ⟨[113], 1, 10⟩
    ∃ report, ((AggQps.run 1 []).aggregateQps c).2 = some report ∧ report.qpsOstr = [] ∧
      (5, 0) ∈ report.increments ∧
      ∀ i ∈ report.increments, i.2 ≠ total (window c.now i.1 (callsOf [113] ([] ++ [c]))) := by
  intro c
  have hreport : ((AggQps.run 1 []).aggregateQps c).2 =
      some ⟨[(1, 0), (5, 0), (15, 0), (30, 0), (60, 0)], []⟩ := by decide +kernel
  exact ⟨_, hreport, rfl, by decide, by decide +kernel⟩

end SimpleRpc.Rlog
