import CshellXv6.Fs.Fresh
import CshellXv6.Fs.Recovery
import CshellXv6.Fs.Reserved
import CshellXv6.Fs.Tree
import CshellXv6.Kernel.Boost
import CshellXv6.Kernel.Kill
import CshellXv6.Kernel.Locks
import CshellXv6.Kernel.LostKill
import CshellXv6.Kernel.RunToBlock
import CshellXv6.Kernel.Slices
import CshellXv6.Kernel.Ticks
import CshellXv6.Shell.Cleanup
import CshellXv6.Shell.Foreground
import CshellXv6.Shell.HopVisits
import CshellXv6.Shell.Limits
import CshellXv6.Shell.Locate
import CshellXv6.Shell.Numbers
import CshellXv6.Shell.PeekSources
import CshellXv6.Shell.Pipeline
import CshellXv6.Shell.Reports
import CshellXv6.Shell.ResumeWait
import CshellXv6.Shell.RevealTree
import CshellXv6.Shell.Snoop
import CshellXv6.Shell.SyncRelease
import CshellXv6.Shell.Targets
import CshellXv6.Shell.Timeout
import CshellXv6.Shell.Wiring
import CshellXv6.Kernel.Pipe
import CshellXv6.Kernel.RoundRobin
import CshellXv6.Kernel.Fork
