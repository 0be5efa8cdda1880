import Nanoserve.Verified.Appending
import Nanoserve.Verified.Backends
import Nanoserve.Verified.Cancellation
import Nanoserve.Verified.Credit
import Nanoserve.Verified.Deregistration
import Nanoserve.Verified.Discovery
import Nanoserve.Verified.Draining
import Nanoserve.Verified.Executor
import Nanoserve.Verified.Failover
import Nanoserve.Verified.Flushing
import Nanoserve.Verified.Leadership
import Nanoserve.Verified.Leaks
import Nanoserve.Verified.Loads
import Nanoserve.Verified.Locality
import Nanoserve.Verified.Migration
import Nanoserve.Verified.Orphans
import Nanoserve.Verified.Outcomes
import Nanoserve.Verified.Overtaking
import Nanoserve.Verified.Points
import Nanoserve.Verified.PrefixScan
import Nanoserve.Verified.Publishing
import Nanoserve.Verified.Quant
import Nanoserve.Verified.Readiness
import Nanoserve.Verified.Recounting
import Nanoserve.Verified.Reference
import Nanoserve.Verified.Retries
import Nanoserve.Verified.Scaling
import Nanoserve.Verified.Slots
import Nanoserve.Verified.Starvation
import Nanoserve.Verified.TokenFile
