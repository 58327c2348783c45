/-
Counters of log queries and their text in the Prometheus format. Counters wrap at `2^64`.
-/
namespace LogGateway

structure Metrics where
  total : UInt64
  storeHits : UInt64
  reorgRetries : UInt64
  timeouts : UInt64
  deriving DecidableEq, Repr

namespace Metrics

def zero : Metrics := ⟨0, 0, 0, 0⟩

/-- One counter: what it is, that it counts, and its value. -/
def entry (name help : String) (value : UInt64) : String :=
  s!"# HELP {name} {help}\n# TYPE {name} counter\n{name} {value}\n"

/-- All counters. -/
def text (metrics : Metrics) : String :=
  "\n".intercalate
    [entry "gateway_get_logs_total" "Total get-logs queries" metrics.total,
     entry "gateway_get_logs_store_hits_total"
       "Get-logs queries served partly or fully from the log store" metrics.storeHits,
     entry "gateway_get_logs_reorg_retries_total" "Get-logs attempts retried after a reorg"
       metrics.reorgRetries,
     entry "gateway_get_logs_timeouts_total" "Get-logs queries that exceeded their deadline"
       metrics.timeouts]

end Metrics

end LogGateway
