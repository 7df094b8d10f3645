import UdrPak.Any.ReadingTheorems
import UdrPak.Any.Theorems
import UdrPak.Prng.CollisionTheorems
import UdrPak.Prng.OutputTheorems
import UdrPak.Prng.SplitmixTheorems
import UdrPak.Prng.TripleTheorems
import UdrPak.Realtime.ClocktickTheorems
import UdrPak.Realtime.InstantTheorems
import UdrPak.Realtime.QueryTheorems
import UdrPak.Realtime.ReturnTheorems
import UdrPak.Realtime.YieldTheorems
import UdrPak.Seq.EndTheorems
import UdrPak.Seq.JoinTheorems
import UdrPak.Seq.RangeTheorems
import UdrPak.Seq.RunTheorems
import UdrPak.Seq.StepTheorems
import UdrPak.Util.HexTheorems
import UdrPak.Util.TextTheorems
import UdrPak.Uuid.ColumnTheorems
import UdrPak.Uuid.DistinctTheorems
import UdrPak.Uuid.FormatTheorems
import UdrPak.Uuid.QueryTheorems
