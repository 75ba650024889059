import TopdownMetrics.Text.Glob
import TopdownMetrics.Text.Substring

/-!
# Topics of events

The topic of an event decides the file into which it is written.  Events of an uncore
unit are classified by the unit, all others by their names: of the patterns that match
the start of the name the one with the highest priority decides, and among equals the
one of the topic that comes last.
-/

namespace TopdownMetrics

namespace Topic

/-- The patterns of each topic with their priorities, topics in ascending order. -/
def patterns : List (String × List (String × Nat)) := [
  ("Cache", [
    ("*CACHE*", 3), ("CORE_REJECT_L2Q*", 1), ("DL1*", 1), ("L1D*", 1), ("L1D_*", 1),
    ("L2*", 1), ("LONGEST_LAT_CACHE*", 1), ("MEM_?*", 3), ("MEM_LOAD_UOPS*", 1),
    ("OCR*L3_HIT*", 1), ("OFFCORE_REQUESTS*", 1), ("OFFCORE_RESPONSE*", 1),
    ("REHABQ*", 1), ("SQ_MISC*", 1), ("STORE*", 1), ("SW_PREFETCH_ACCESS*", 1)]),
  ("Floating point", [
    ("*AVX*", 3), ("*FPDIV*", 3), ("*FP_ASSIST*", 3), ("*SIMD*", 3), ("ASSISTS?FP*", 1),
    ("FP_*", 3), ("FP_COMP_OPS_EXE*", 1), ("SIMD*", 1), ("SIMD_FP_256*", 1), ("X87*", 1)]),
  ("Frontend", [
    ("BACLEARS*", 3), ("CYCLES_ICACHE_MEM_STALLED*", 3), ("DECODE*", 1), ("DSB*", 1),
    ("FRONTEND*", 3), ("ICACHE*", 4), ("IDQ*", 3), ("MACRO_INSTS*", 1),
    ("MS_DECODED*", 1), ("TWO_UOP_INSTS_DECODED*", 1), ("UOPS?MS_CYCLES*", 1)]),
  ("Memory", [
    ("*L3_MISS*", 2), ("*LLC_MISS*", 2), ("*MEMORY_ORDERING*", 3), ("HLE*", 3),
    ("LD_HEAD*", 1), ("MEMORY_ACTIVITY*", 1), ("MEM_TRANS_RETIRED*", 3),
    ("MISALIGN_MEM_REF*", 1), ("OFFCORE_RESPONSE*DDR*", 1), ("OFFCORE_RESPONSE*DRAM*", 1),
    ("OFFCORE_RESPONSE*MCDRAM*", 1), ("PREFETCH*", 1), ("RTM*", 3), ("TX_EXEC*", 1),
    ("TX_MEM*", 1)]),
  ("Pipeline", [
    ("*_DISPATCHED*", 1), ("*_ISSUED*", 1), ("*_RETIRED*", 1), ("AGU_BYPASS_CANCEL*", 1),
    ("ARITH*", 1), ("ASSISTS?ANY*", 1), ("BACLEAR*", 1), ("BOGUS_BR*", 1), ("BPU_*", 1),
    ("BR_*", 1), ("BTCLEAR*", 1), ("CPU_CLK*", 1), ("CYCLES_DIV_BUSY*", 1),
    ("CYCLE_ACTIVITY*", 1), ("DIV*", 1), ("EXE_ACTIVITY*", 1), ("IDQ*", 1), ("ILD*", 1),
    ("INST_*", 1), ("INT_MISC*", 1), ("ISSUE_SLOTS_NOT_CONSUMED*", 1), ("LD_BLOCKS*", 1),
    ("LOAD_HIT_PRE*", 1), ("LSD*", 1), ("MACHINE_CLEARS*", 1), ("MOVE_ELIMINATION*", 1),
    ("MUL*", 1), ("NO_ALLOC_CYCLES*", 1), ("OTHER_ASSISTS*", 1),
    ("PARTIAL_RAT_STALLS*", 1), ("RAT_STALLS*", 1), ("RECYCLEQ*", 1), ("REISSUE*", 1),
    ("RESOURCE_STALLS*", 1), ("ROB_MISC_EVENTS*", 1), ("RS_EVENTS*", 1), ("RS_FULL*", 1),
    ("SERIALIZATION?NON_C01_MS_SCB*", 1), ("STORE_FORWARD*", 1), ("TOPDOWN*", 1),
    ("UOPS_*", 1), ("UOP_DISPATCHES_CANCELLED*", 1), ("UOP_UNFUSION*", 1)]),
  ("Virtual Memory", [
    ("*DTLB*", 3), ("?TLB_*", 1), ("DATA_TLB*", 1), ("EPT*", 1), ("ITLB*", 3),
    ("PAGE_WALK*", 1), ("TLB_FLUSH*", 1)])]

def other : String := "Other"

/-- A pattern with its topic and priority. -/
structure Rule where
  topic : String
  pattern : String
  priority : Nat
  deriving DecidableEq, Repr

def rules : List Rule :=
  patterns.flatMap fun (topic, ps) => ps.map fun (pattern, priority) =>
    ⟨topic, pattern, priority⟩

/-- The better of the best rule so far and a later one. -/
def better (best : Option Rule) (r : Rule) : Option Rule :=
  match best with
  | none => some r
  | some b => if b.priority ≤ r.priority then some r else some b

def ofName (name : String) : String :=
  let matching := rules.filter (Text.startsWithGlob name ·.pattern)
  ((matching.foldl better none).map Rule.topic).getD other

def ofUnit (unit : String) : String :=
  if unit = "iMC" then "Uncore-Memory"
  else if unit = "CBO" ∨ unit = "HA" then "Uncore-Cache"
  else if unit = "PCU" then "Uncore-Power"
  else if Text.startsWith unit "QPI" then "Uncore-Interconnect"
  else "Uncore-Other"

end Topic

/-- The topic of an event.  Units that mention `cpu` are no uncore units. -/
def topicOf (name : String) (unit : Option String) : String :=
  match unit with
  | some unit => if Text.contains unit "cpu" then Topic.ofName name else Topic.ofUnit unit
  | none => Topic.ofName name

end TopdownMetrics
